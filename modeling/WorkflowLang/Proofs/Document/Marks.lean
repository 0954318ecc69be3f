import Mathlib.Data.Finset.Card

/-!
# Items that repeat a key

The items of a list are marked when an earlier one has their key.  The marks go on
from one part of a list to the next if the keys of the first part are remembered
(`markAmong_append`), and the items without a mark stand for the keys of the list,
one for each (`keys_unmarked`).
-/

namespace WorkflowLang

section

variable {Item Key : Type} [DecidableEq Key] {key : Item → Key}

/-- Each item of a list with whether an earlier one has its key. -/
def markRepeated (key : Item → Key) (items : List Item) :
    List (Item × Bool) :=
  items.zipIdx.map fun place =>
    (place.1, decide (key place.1 ∈ (items.take place.2).map key))

/-- The same when items with some keys were seen before. -/
def markAmong (seen : List Key) (key : Item → Key) (items : List Item) :
    List (Item × Bool) :=
  items.zipIdx.map fun place => (place.1,
    decide (key place.1 ∈ seen ∨ key place.1 ∈ (items.take place.2).map key))

theorem markAmong_nil (key : Item → Key) (items : List Item) :
    markAmong [] key items = markRepeated key items := by
  simp [markAmong, markRepeated]

theorem markAmong_cons (seen : List Key) (item : Item) (others : List Item) :
    markAmong seen key (item :: others) =
      (item, decide (key item ∈ seen)) ::
        markAmong (key item :: seen) key others := by
  have sameBehind (found : Key) (place : Nat) :
      (found ∈ seen ∨ found ∈ ((item :: others).take (place + 1)).map key) ↔
        (found ∈ key item :: seen ∨ found ∈ (others.take place).map key) := by
    simp only [List.take_succ_cons, List.map_cons, List.mem_cons]
    tauto
  unfold markAmong
  rw [List.zipIdx_cons, List.map_cons, List.zipIdx_succ, List.map_map]
  refine congrArg₂ List.cons (by simp) (List.map_congr_left fun place _ => ?_)
  simp only [Function.comp_apply, sameBehind]

/-- Marks depend on which keys were seen, not on how often. -/
theorem markAmong_congr {seen other : List Key}
    (same : ∀ found, found ∈ seen ↔ found ∈ other) (items : List Item) :
    markAmong seen key items = markAmong other key items := by
  simp only [markAmong, same]

theorem markAmong_known {seen : List Key} {item : Item}
    (known : key item ∈ seen) (others : List Item) :
    markAmong seen key (item :: others) =
      (item, true) :: markAmong seen key others := by
  have same (found : Key) : found ∈ key item :: seen ↔ found ∈ seen := by
    rw [List.mem_cons, or_iff_right_of_imp]
    rintro rfl
    exact known
  rw [markAmong_cons, markAmong_congr same, decide_eq_true known]

theorem markAmong_fresh {seen : List Key} {item : Item}
    (fresh : key item ∉ seen) (others : List Item) :
    markAmong seen key (item :: others) =
      (item, false) :: markAmong (key item :: seen) key others := by
  rw [markAmong_cons, decide_eq_false fresh]

/-- Items without a mark are those with only other keys in front of them. -/
theorem mem_markRepeated_iff {items : List Item} {item : Item} :
    (item, false) ∈ markRepeated key items ↔
      ∃ before after, items = before ++ item :: after ∧
        ∀ earlier ∈ before, key earlier ≠ key item := by
  constructor
  · intro member
    obtain ⟨place, isPlace, same⟩ := List.mem_map.mp member
    obtain ⟨rfl, fresh⟩ := Prod.mk.inj same
    obtain ⟨within, isItem⟩ := List.getElem?_eq_some_iff.mp
      (List.mem_zipIdx_iff_getElem?.mp isPlace)
    refine ⟨items.take place.2, items.drop (place.2 + 1), ?_,
      fun earlier isEarlier sameKey => of_decide_eq_false fresh
        (List.mem_map.mpr ⟨earlier, isEarlier, sameKey⟩)⟩
    rw [← isItem, ← List.drop_eq_getElem_cons, List.take_append_drop]
  · rintro ⟨before, after, rfl, others⟩
    refine List.mem_map.mpr ⟨(item, before.length), ?_, ?_⟩
    · simp [List.mem_zipIdx_iff_getElem?]
    · have fresh : key item ∉ before.map key := by
        simpa using others
      rw [List.take_left, decide_eq_false fresh]

/-- The items without a mark, and those with one. -/
def unmarked (marks : List (Item × Bool)) : List Item :=
  marks.filterMap fun place => if place.2 then none else some place.1

def marked (marks : List (Item × Bool)) : List Item :=
  marks.filterMap fun place => if place.2 then some place.1 else none

theorem mem_of_mem_marked {items : List Item} {item : Item}
    (member : item ∈ marked (markRepeated key items)) : item ∈ items := by
  obtain ⟨place, isPlace, isMarked⟩ := List.mem_filterMap.mp member
  obtain ⟨indexed, isIndexed, rfl⟩ := List.mem_map.mp isPlace
  have isItem := Option.some.inj (Option.ite_none_right_eq_some.mp isMarked).2
  rw [← isItem]
  exact List.fst_mem_of_mem_zipIdx isIndexed

theorem unmarked_known {seen : List Key} {item : Item}
    (known : key item ∈ seen) (others : List Item) :
    unmarked (markAmong seen key (item :: others)) =
      unmarked (markAmong seen key others) := by
  rw [markAmong_known known]
  rfl

theorem unmarked_fresh {seen : List Key} {item : Item}
    (fresh : key item ∉ seen) (others : List Item) :
    unmarked (markAmong seen key (item :: others)) =
      item :: unmarked (markAmong (key item :: seen) key others) := by
  rw [markAmong_fresh fresh]
  rfl

/-- The items without a mark have each key once, and all but those that were seen
before. -/
theorem keys_unmarked (seen : List Key) (items : List Item) :
    ((unmarked (markAmong seen key items)).map key).Nodup ∧
      ∀ found, found ∈ (unmarked (markAmong seen key items)).map key ↔
        found ∈ items.map key ∧ found ∉ seen := by
  induction items generalizing seen with
  | nil => simp [markAmong, unmarked]
  | cons item others inductionHypothesis =>
      by_cases known : key item ∈ seen
      · obtain ⟨nodup, members⟩ := inductionHypothesis seen
        rw [unmarked_known known]
        refine ⟨nodup, fun found => ?_⟩
        rw [members, List.map_cons, List.mem_cons]
        refine and_congr_left fun fresh => (or_iff_right ?_).symm
        rintro rfl
        exact fresh known
      · obtain ⟨nodup, members⟩ := inductionHypothesis (key item :: seen)
        rw [unmarked_fresh known, List.map_cons]
        refine ⟨List.nodup_cons.mpr ⟨fun member => ?_, nodup⟩, fun found => ?_⟩
        · exact ((members _).mp member).2 List.mem_cons_self
        · rw [List.mem_cons, members, List.map_cons, List.mem_cons,
            List.mem_cons, not_or]
          by_cases same : found = key item
          · simp [same, known]
          · simp [same]

/-- Behind some items the marks are those among their keys. -/
theorem markAmong_append (seen : List Key) (first second : List Item) :
    markAmong seen key (first ++ second) =
      markAmong seen key first ++
        markAmong (first.map key ++ seen) key second := by
  induction first generalizing seen with
  | nil => rfl
  | cons item others inductionHypothesis =>
      have same (found : Key) :
          found ∈ others.map key ++ key item :: seen ↔
            found ∈ (item :: others).map key ++ seen := by
        simp only [List.map_cons, List.mem_append, List.mem_cons]
        tauto
      rw [List.cons_append, markAmong_cons, inductionHypothesis,
        markAmong_congr same, markAmong_cons, List.cons_append]

/-- There are as many items without a mark as there are keys. -/
theorem length_unmarked (items : List Item) :
    (unmarked (markRepeated key items)).length =
      (items.map key).toFinset.card := by
  obtain ⟨nodup, members⟩ := @keys_unmarked _ _ _ key [] items
  rw [markAmong_nil] at nodup members
  have same : ((unmarked (markRepeated key items)).map key).toFinset =
      (items.map key).toFinset := by
    ext found
    simp only [List.mem_toFinset, members, List.not_mem_nil, not_false_eq_true,
      and_true]
  rw [← same, List.toFinset_card_of_nodup nodup, List.length_map]

/-- An item without a mark has a key that is new where it stands. -/
theorem exists_split_of_unmarked {seen : List Key} {items : List Item}
    {item : Item} {count : Nat}
    (found : (unmarked (markAmong seen key items))[count]? = some item) :
    ∃ before after, items = before ++ item :: after ∧ key item ∉ seen ∧
      key item ∉ before.map key ∧
      (unmarked (markAmong seen key before)).length = count := by
  induction items generalizing seen count with
  | nil => simp [markAmong, unmarked] at found
  | cons first others inductionHypothesis =>
      by_cases known : key first ∈ seen
      · rw [unmarked_known known] at found
        obtain ⟨before, after, rfl, fresh, isNew, counted⟩ :=
          inductionHypothesis found
        refine ⟨first :: before, after, rfl, fresh, ?_, ?_⟩
        · rw [List.map_cons, List.mem_cons, not_or]
          exact ⟨fun same => fresh (same ▸ known), isNew⟩
        · rwa [unmarked_known known]
      · rw [unmarked_fresh known] at found
        cases count with
        | zero =>
            obtain rfl : first = item := by simpa using found
            exact ⟨[], others, rfl, known, List.not_mem_nil, rfl⟩
        | succ count =>
            rw [List.getElem?_cons_succ] at found
            obtain ⟨before, after, rfl, fresh, isNew, counted⟩ :=
              inductionHypothesis found
            obtain ⟨other, unseen⟩ := not_or.mp (List.mem_cons.not.mp fresh)
            refine ⟨first :: before, after, rfl, unseen, ?_, ?_⟩
            · rw [List.map_cons, List.mem_cons, not_or]
              exact ⟨other, isNew⟩
            · rw [unmarked_fresh known, List.length_cons, counted]

end

end WorkflowLang
