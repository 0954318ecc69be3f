import WorkflowLang.Proofs.Session.Freshness
import Mathlib.Data.Finset.Card
import Mathlib.Data.List.Nodup

/-!
# What a cache keeps

A cache is asked for compilations in any order.  It never keeps more of them than
it has room for, nor two for one document.  What it finds is what the latest call
that compiled the document made.  And it does not lose a compilation before as
many other documents have been asked for as it has room for: only those can be
more recent than the document (`CompilationCache.ofCapacity_isRecencyStore`).
-/

namespace WorkflowLang

namespace RecentMap

variable {α : Type} {recent : RecentMap α} {key other : String} {value : α}

theorem notMem_keys_others (recent : RecentMap α) (key : String) :
    key ∉ (recent.others key).map Prod.fst := by
  simp [others]

theorem notMem_keys_of_get? (absent : recent.get? key = none) :
    key ∉ recent.entries.map Prod.fst := by
  intro member
  obtain ⟨entry, isEntry, rfl⟩ := List.mem_map.mp member
  simpa using List.lookup_eq_none_iff.mp absent entry isEntry

/-- Without an entry that is there the others are fewer. -/
theorem length_others_lt (found : recent.get? key = some value) :
    (recent.others key).length < recent.entries.length := by
  obtain ⟨front, back, entries, -⟩ := List.lookup_eq_some_iff.mp found
  have frontLe := List.length_filter_le (fun entry => entry.1 != key) front
  have backLe := List.length_filter_le (fun entry => entry.1 != key) back
  rw [others, entries, List.filter_append,
    List.filter_cons_of_neg (by simp), List.length_append, List.length_append,
    List.length_cons]
  omega

/-- A map within its capacity that has every key once. -/
structure IsBounded (recent : RecentMap α) : Prop where
  length_le : recent.entries.length ≤ recent.capacity
  nodup : (recent.entries.map Prod.fst).Nodup

theorem IsBounded.nodup_others (bounded : recent.IsBounded) (key : String) :
    ((recent.others key).map Prod.fst).Nodup :=
  bounded.nodup.sublist (List.filter_sublist.map Prod.fst)

@[simp] theorem capacity_touch (recent : RecentMap α) (key : String) :
    (recent.touch key).capacity = recent.capacity := by
  unfold RecentMap.touch
  split <;> rfl

theorem IsBounded.touch (bounded : recent.IsBounded) (key : String) :
    (recent.touch key).IsBounded := by
  unfold RecentMap.touch
  split
  · exact bounded
  · rename_i value found
    constructor
    · exact Nat.le_trans (length_others_lt found) bounded.length_le
    · exact List.nodup_cons.mpr
        ⟨recent.notMem_keys_others key, bounded.nodup_others key⟩

theorem IsBounded.erase (bounded : recent.IsBounded) (key : String) :
    (recent.erase key).IsBounded :=
  ⟨Nat.le_trans (List.length_filter_le _ _) bounded.length_le,
    bounded.nodup_others key⟩

theorem IsBounded.insert (bounded : recent.IsBounded)
    (positive : 0 < recent.capacity) (key : String) (value : α) :
    (recent.insert key value).IsBounded := by
  unfold RecentMap.insert
  split
  · rename_i full
    rw [Bool.and_eq_true, Option.isNone_iff_eq_none, decide_eq_true_eq] at full
    obtain ⟨absent, noRoom⟩ := full
    have fewer : recent.entries.dropLast.Sublist recent.entries :=
      List.dropLast_sublist _
    constructor
    · have length := bounded.length_le
      simp only [List.length_cons, List.length_dropLast]
      omega
    · refine List.nodup_cons.mpr ⟨fun member => ?_, ?_⟩
      · exact notMem_keys_of_get? absent ((fewer.map Prod.fst).subset member)
      · exact bounded.nodup.sublist (fewer.map Prod.fst)
  · rename_i notFull
    constructor
    · cases found : recent.get? key with
      | none =>
          rw [found, Option.isNone_none, Bool.true_and, decide_eq_true_eq,
            Nat.not_le] at notFull
          exact Nat.lt_of_le_of_lt (List.length_filter_le _ _) notFull
      | some kept =>
          exact Nat.le_trans (length_others_lt found) bounded.length_le
    · exact List.nodup_cons.mpr
        ⟨recent.notMem_keys_others key, bounded.nodup_others key⟩

/-- An entry with only entries of some other keys before it. -/
def HoldsBehind (recent : RecentMap α) (ahead : Finset String)
    (key : String) (value : α) : Prop :=
  key ∉ ahead ∧ ∃ front back,
    recent.entries = front ++ (key, value) :: back ∧
      ∀ entry ∈ front, entry.1 ∈ ahead

variable {ahead : Finset String}

theorem HoldsBehind.get?_eq (holds : recent.HoldsBehind ahead key value) :
    recent.get? key = some value := by
  obtain ⟨notAhead, front, back, entries, others⟩ := holds
  refine List.lookup_eq_some_iff.mpr ⟨front, back, entries, ?_⟩
  intro entry isEntry
  rw [bne_iff_ne]
  rintro rfl
  exact notAhead (others entry isEntry)

/-- The entry used last has no other before it. -/
theorem holdsBehind_cons (notAhead : key ∉ ahead) (capacity : Nat)
    (entries : List (String × α)) :
    HoldsBehind ⟨capacity, (key, value) :: entries⟩ ahead key value :=
  ⟨notAhead, [], entries, rfl, by simp⟩

theorem HoldsBehind.touch_self (holds : recent.HoldsBehind ahead key value) :
    (recent.touch key).HoldsBehind ahead key value := by
  have found := holds.get?_eq
  unfold RecentMap.touch
  rw [found]
  exact holdsBehind_cons holds.1 _ _

theorem HoldsBehind.erase (holds : recent.HoldsBehind ahead key value)
    (differs : key ≠ other) :
    (recent.erase other).HoldsBehind ahead key value := by
  obtain ⟨notAhead, front, back, entries, others⟩ := holds
  refine ⟨notAhead, front.filter fun entry => entry.1 != other,
    back.filter fun entry => entry.1 != other, ?_, ?_⟩
  · simp [RecentMap.erase, RecentMap.others, entries, differs]
  · exact fun entry isEntry => others entry (List.mem_of_mem_filter isEntry)

/-- The entry stays behind another one that is moved to the front. -/
theorem HoldsBehind.cons_others (holds : recent.HoldsBehind ahead key value)
    (isAhead : other ∈ ahead) (differs : key ≠ other) (used : α) :
    HoldsBehind ⟨recent.capacity, (other, used) :: recent.others other⟩
      ahead key value := by
  obtain ⟨notAhead, front, back, entries, others⟩ := holds.erase differs
  refine ⟨notAhead, (other, used) :: front, back, ?_, ?_⟩
  · exact congrArg (List.cons (other, used)) entries
  · exact List.forall_mem_cons.mpr ⟨isAhead, others⟩

theorem HoldsBehind.touch (holds : recent.HoldsBehind ahead key value)
    (isAhead : other ∈ ahead) (differs : key ≠ other) :
    (recent.touch other).HoldsBehind ahead key value := by
  unfold RecentMap.touch
  split
  · exact holds
  · exact holds.cons_others isAhead differs _

/-- An entry is not dropped for a new one while there is room for the keys that
may be before it. -/
theorem HoldsBehind.insert (holds : recent.HoldsBehind ahead key value)
    (bounded : recent.IsBounded) (room : ahead.card < recent.capacity)
    (isAhead : other ∈ ahead) (differs : key ≠ other) (added : α) :
    (recent.insert other added).HoldsBehind ahead key value := by
  unfold RecentMap.insert
  split
  · rename_i full
    rw [Bool.and_eq_true, Option.isNone_iff_eq_none, decide_eq_true_eq] at full
    obtain ⟨absent, noRoom⟩ := full
    obtain ⟨notAhead, front, back, entries, others⟩ := holds
    have notFront : other ∉ front.map Prod.fst := by
      intro member
      apply notMem_keys_of_get? absent
      rw [entries, List.map_append]
      exact List.mem_append_left _ member
    have frontNodup : (front.map Prod.fst).Nodup := by
      have nodup := bounded.nodup
      rw [entries, List.map_append] at nodup
      exact nodup.of_append_left
    -- The new key and those in front are among the keys that may be there.
    have frontFew : front.length < ahead.card := by
      have distinct : (other :: front.map Prod.fst).Nodup :=
        List.nodup_cons.mpr ⟨notFront, frontNodup⟩
      have included : (other :: front.map Prod.fst).toFinset ⊆ ahead := by
        intro name member
        rw [List.mem_toFinset, List.mem_cons, List.mem_map] at member
        rcases member with rfl | ⟨entry, isEntry, rfl⟩
        · exact isAhead
        · exact others entry isEntry
      have card := Finset.card_le_card included
      rwa [List.toFinset_card_of_nodup distinct, List.length_cons,
        List.length_map] at card
    have backNotEmpty : back ≠ [] := by
      rintro rfl
      rw [size, entries, List.length_append, List.length_singleton] at noRoom
      omega
    refine ⟨notAhead, (other, added) :: front, back.dropLast, ?_, ?_⟩
    · simp [entries, List.dropLast_cons_of_ne_nil backNotEmpty]
    · exact List.forall_mem_cons.mpr ⟨isAhead, others⟩
  · exact holds.cons_others isAhead differs added

end RecentMap

/-- What can be asked of a cache. -/
inductive CacheCall where
  | get (uri : String) (version : Int)
  | getOrCompile (uri : String) (version : Int) (text : String)
  | remove (uri : String)
  deriving DecidableEq, Inhabited, Repr

namespace CacheCall

def uri : CacheCall → String
  | .get uri _ => uri
  | .getOrCompile uri _ _ => uri
  | .remove uri => uri

/-- A call that asks for a version of a document. -/
def AsksFor (uri : String) (version : Int) (call : CacheCall) : Prop :=
  call = .get uri version ∨ ∃ text, call = .getOrCompile uri version text

end CacheCall

namespace CompilationCache

/-- The answer to a call, and the cache behind it. -/
def perform (cache : CompilationCache) :
    CacheCall → Option CachedCompilation × CompilationCache
  | .get uri version => cache.get uri version
  | .getOrCompile uri version text =>
      let asked := cache.getOrCompile uri version text
      (some asked.1, asked.2)
  | .remove uri => cache.remove uri

/-- The cache behind some calls. -/
def performAll (cache : CompilationCache) (calls : List CacheCall) :
    CompilationCache :=
  calls.foldl (fun cache call => (cache.perform call).2) cache

/-- A call that finds nothing kept and compiles its text. -/
def Compiles (cache : CompilationCache) : CacheCall → Prop
  | .getOrCompile uri version _ => (cache.get uri version).1 = none
  | .get _ _ => False
  | .remove _ => False

/-- Among some calls, one compiled a version of a document and answered with what
is kept of it; behind it no call compiled the document again or removed it. -/
structure IsLatest (start : CompilationCache) (calls : List CacheCall)
    (uri : String) (version : Int) (kept : CachedCompilation)
    (before : List CacheCall) (text : String) (after : List CacheCall) :
    Prop where
  calls_eq : calls = before ++ .getOrCompile uri version text :: after
  compiles : (start.performAll before).Compiles
    (.getOrCompile uri version text)
  answer_eq : ((start.performAll before).perform
    (.getOrCompile uri version text)).1 = some kept
  version_eq : kept.version = version
  compilation_eq : kept.compilation = Compilation.ofText text
  not_removed : .remove uri ∉ after
  not_compiled : ∀ between call, between ++ [call] <+: after →
    call.uri = uri → ¬(start.performAll
      (before ++ .getOrCompile uri version text :: between)).Compiles call

/-- A store of compilations that keeps the most recent ones. -/
structure IsRecencyStore (capacity : Nat) (start : CompilationCache) :
    Prop where
  /-- There are never more entries than there is room for. -/
  length_le : ∀ calls,
    (start.performAll calls).recent.entries.length ≤ capacity
  /-- There are never two entries for one document. -/
  nodup : ∀ calls,
    ((start.performAll calls).recent.entries.map Prod.fst).Nodup
  /-- What is found is what the latest call that compiled the document made. -/
  sound : ∀ calls uri version call kept, call.AsksFor uri version →
    ¬(start.performAll calls).Compiles call →
      ((start.performAll calls).perform call).1 = some kept →
        ∃ before text after,
          IsLatest start calls uri version kept before text after
  /-- No two calls make the same compilation. -/
  distinct : ∀ before call between other,
    (start.performAll before).Compiles call →
      (start.performAll (before ++ call :: between)).Compiles other →
        ((start.performAll before).perform call).1 ≠
          ((start.performAll (before ++ call :: between)).perform other).1
  /-- What was answered is found again as long as fewer other documents are asked
  for than there is room for. -/
  retained : ∀ before uri version text kept after,
    ((start.performAll before).perform
      (.getOrCompile uri version text)).1 = some kept →
    .remove uri ∉ after →
    (∀ other otherText, .getOrCompile uri other otherText ∈ after →
      other = version) →
    ((after.map CacheCall.uri).toFinset.erase uri).card < capacity →
      ((start.performAll
        (before ++ .getOrCompile uri version text :: after)).get
          uri version).1 = some kept

@[simp] theorem performAll_nil (cache : CompilationCache) :
    cache.performAll [] = cache := rfl

@[simp] theorem performAll_cons (cache : CompilationCache) (call : CacheCall)
    (calls : List CacheCall) :
    cache.performAll (call :: calls) =
      (cache.perform call).2.performAll calls := rfl

@[simp] theorem performAll_append (cache : CompilationCache)
    (first second : List CacheCall) :
    cache.performAll (first ++ second) =
      (cache.performAll first).performAll second :=
  List.foldl_append ..

/-- A call uses an entry, compiles a text for the document, or removes what is
kept of it. -/
theorem perform_cases (cache : CompilationCache) (call : CacheCall) :
    (¬cache.Compiles call ∧ call ≠ .remove call.uri ∧
        (cache.perform call).2 =
          ⟨cache.recent.touch call.uri, cache.made⟩) ∨
      (cache.Compiles call ∧ ∃ version text made,
        call = .getOrCompile call.uri version text ∧
          made = ⟨cache.made, version, Compilation.ofText text⟩ ∧
            cache.perform call =
              (some made, ⟨(cache.recent.touch call.uri).insert call.uri made,
                cache.made + 1⟩)) ∨
      (call = .remove call.uri ∧
        (cache.perform call).2 =
          ⟨cache.recent.erase call.uri, cache.made⟩) := by
  cases call with
  | get uri version => exact Or.inl ⟨id, by simp [CacheCall.uri], rfl⟩
  | remove uri => exact Or.inr (Or.inr ⟨rfl, rfl⟩)
  | getOrCompile uri version text =>
      cases found : (cache.get uri version).1 with
      | some kept =>
          refine Or.inl ⟨by simp [Compiles, found], by simp [CacheCall.uri], ?_⟩
          simp only [perform, getOrCompile, found]
          rfl
      | none =>
          refine Or.inr (Or.inl ⟨found, version, text, _, rfl, rfl, ?_⟩)
          simp only [perform, getOrCompile, found]
          rfl

/-- A cache that keeps to a capacity. -/
structure Fits (cache : CompilationCache) (capacity : Nat) : Prop where
  bounded : cache.recent.IsBounded
  capacity_eq : cache.recent.capacity = capacity

variable {cache start : CompilationCache} {capacity : Nat} {call : CacheCall}
  {calls : List CacheCall} {uri : String} {kept : CachedCompilation}

theorem Fits.perform (fits : cache.Fits capacity) (positive : 0 < capacity)
    (call : CacheCall) : (cache.perform call).2.Fits capacity := by
  obtain ⟨bounded, rfl⟩ := fits
  have touched := bounded.touch call.uri
  have room : 0 < (cache.recent.touch call.uri).capacity := by
    rwa [RecentMap.capacity_touch]
  rcases cache.perform_cases call with
    ⟨-, -, behind⟩ | ⟨-, version, text, made, -, -, behind⟩ | ⟨-, behind⟩
  · rw [behind]
    exact ⟨touched, RecentMap.capacity_touch _ _⟩
  · rw [behind]
    exact ⟨touched.insert room _ _, RecentMap.capacity_touch _ _⟩
  · rw [behind]
    exact ⟨bounded.erase _, rfl⟩

theorem Fits.performAll (fits : cache.Fits capacity)
    (positive : 0 < capacity) (calls : List CacheCall) :
    (cache.performAll calls).Fits capacity := by
  induction calls generalizing cache with
  | nil => exact fits
  | cons call others inductionHypothesis =>
      exact inductionHypothesis (fits.perform positive call)

/-- An empty cache with room for some compilations. -/
theorem fits_ofCapacity (positive : 0 < capacity) :
    (ofCapacity capacity).Fits capacity := by
  constructor
  · constructor <;> simp [ofCapacity, RecentMap.empty]
  · simp [ofCapacity, RecentMap.empty, Nat.ne_of_gt positive]

theorem get_eq_some_iff {version : Int} :
    (cache.get uri version).1 = some kept ↔
      cache.recent.get? uri = some kept ∧ kept.version = version := by
  simp [get, Option.filter_eq_some_iff]

/-- A call leaves a compilation where it is found, unless it removes it or asks
for another version of the document. -/
theorem holdsBehind_perform {ahead : Finset String}
    (holds : cache.recent.HoldsBehind ahead uri kept)
    (fits : cache.Fits capacity) (room : ahead.card < capacity)
    (allowed : call.uri ≠ uri → call.uri ∈ ahead)
    (notRemoved : call ≠ .remove uri)
    (sameVersion : ∀ version text, call = .getOrCompile uri version text →
      version = kept.version) :
    (cache.perform call).2.recent.HoldsBehind ahead uri kept := by
  obtain ⟨bounded, rfl⟩ := fits
  have touchedRoom : ahead.card <
      (cache.recent.touch call.uri).capacity := by
    rwa [RecentMap.capacity_touch]
  by_cases same : call.uri = uri
  · subst same
    rcases cache.perform_cases call with
      ⟨-, -, behind⟩ | ⟨compiles, version, text, made, asks, -, -⟩ |
        ⟨removes, -⟩
    · rw [behind]
      exact holds.touch_self
    · -- The version that is asked for is the one that is kept.
      have found : (cache.get call.uri version).1 = some kept :=
        get_eq_some_iff.mpr
          ⟨holds.get?_eq, (sameVersion version text asks).symm⟩
      rw [asks] at compiles
      simp [Compiles, found] at compiles
    · exact absurd removes notRemoved
  · have isAhead := allowed same
    have differs : uri ≠ call.uri := fun equal => same equal.symm
    rcases cache.perform_cases call with
      ⟨-, -, behind⟩ | ⟨-, version, text, made, -, -, behind⟩ | ⟨-, behind⟩
    · rw [behind]
      exact holds.touch isAhead differs
    · rw [behind]
      exact (holds.touch isAhead differs).insert (bounded.touch _)
        touchedRoom isAhead differs made
    · rw [behind]
      exact holds.erase differs

theorem holdsBehind_performAll {ahead : Finset String}
    (holds : cache.recent.HoldsBehind ahead uri kept)
    (fits : cache.Fits capacity) (positive : 0 < capacity)
    (room : ahead.card < capacity)
    (allowed : ∀ call ∈ calls, call.uri ≠ uri → call.uri ∈ ahead)
    (notRemoved : .remove uri ∉ calls)
    (sameVersion : ∀ version text, .getOrCompile uri version text ∈ calls →
      version = kept.version) :
    (cache.performAll calls).recent.HoldsBehind ahead uri kept := by
  induction calls generalizing cache with
  | nil => exact holds
  | cons call others inductionHypothesis =>
      rw [List.forall_mem_cons] at allowed
      rw [List.mem_cons, not_or] at notRemoved
      refine inductionHypothesis ?_ (fits.perform positive call) allowed.2
        notRemoved.2 fun version text member =>
          sameVersion version text (List.mem_cons_of_mem _ member)
      refine holdsBehind_perform holds fits room allowed.1
        (Ne.symm notRemoved.1) fun version text asks => ?_
      exact sameVersion version text (by simp [asks])

/-- What is answered for a text is used last. -/
theorem holdsBehind_answer {ahead : Finset String} {version : Int}
    {text : String} (notAhead : uri ∉ ahead)
    (answer : (cache.perform (.getOrCompile uri version text)).1 =
      some kept) :
    kept.version = version ∧
      (cache.perform
        (.getOrCompile uri version text)).2.recent.HoldsBehind
          ahead uri kept := by
  cases found : (cache.get uri version).1 with
  | some asked =>
      simp only [perform, getOrCompile, found, Option.some.injEq]
        at answer ⊢
      subst answer
      obtain ⟨isKept, version⟩ := get_eq_some_iff.mp found
      refine ⟨version, ?_⟩
      rw [get, RecentMap.touch, isKept]
      exact RecentMap.holdsBehind_cons notAhead _ _
  | none =>
      simp only [perform, getOrCompile, found, Option.some.injEq]
        at answer ⊢
      subst answer
      exact ⟨rfl, RecentMap.holdsBehind_cons notAhead _ _⟩

/-- A call that does not compile the document or remove it leaves the latest
compilation of the document what it is. -/
theorem IsLatest.concat {version : Int} {before after : List CacheCall}
    {text : String}
    (latest : start.IsLatest calls uri version kept before text after)
    (notRemoved : call ≠ .remove uri)
    (notCompiled : call.uri = uri →
      ¬(start.performAll calls).Compiles call) :
    start.IsLatest (calls ++ [call]) uri version kept before text
      (after ++ [call]) := by
  obtain ⟨rfl, compiles, answer, sameVersion, sameText, stays, notAgain⟩ :=
    latest
  refine ⟨by simp, compiles, answer, sameVersion, sameText, ?_, ?_⟩
  · rw [List.mem_append, not_or, List.mem_singleton]
    exact ⟨stays, Ne.symm notRemoved⟩
  · intro between other isBehind sameUri
    rcases List.prefix_concat_iff.mp isBehind with whole | isBefore
    · obtain ⟨rfl, same⟩ := List.append_inj' whole rfl
      obtain rfl := List.singleton_inj.mp same
      exact notCompiled sameUri
    · exact notAgain between other isBefore sameUri

/-- The latest compilation of a document is the one just made. -/
theorem isLatest_concat {version : Int} {text : String}
    (compiles : (start.performAll calls).Compiles
      (.getOrCompile uri version text))
    (answer : (start.performAll calls).perform
      (.getOrCompile uri version text) = (some kept, cache))
    (sameVersion : kept.version = version)
    (sameText : kept.compilation = Compilation.ofText text) :
    start.IsLatest (calls ++ [.getOrCompile uri version text]) uri version kept
      calls text [] where
  calls_eq := rfl
  compiles := compiles
  answer_eq := congrArg Prod.fst answer
  version_eq := sameVersion
  compilation_eq := sameText
  not_removed := List.not_mem_nil
  not_compiled between call isBehind := by simp at isBehind

/-- Whatever a cache keeps of a document, the latest call that compiled it made. -/
theorem exists_isLatest
    (empty : ∀ uri, start.recent.get? uri = none)
    (found : (start.performAll calls).recent.get? uri = some kept) :
    ∃ before text after,
      start.IsLatest calls uri kept.version kept before text after := by
  induction calls using List.reverseRecOn generalizing uri kept with
  | nil => simp [empty] at found
  | append_singleton calls call inductionHypothesis =>
      rw [performAll_append, performAll_cons, performAll_nil] at found
      rcases (start.performAll calls).perform_cases call with
        ⟨notCompiled, notRemoved, behind⟩ |
          ⟨compiles, version, text, made, asks, rfl, behind⟩ |
            ⟨removes, behind⟩
      · rw [behind, RecentMap.get?_touch] at found
        obtain ⟨before, text, after, latest⟩ := inductionHypothesis found
        refine ⟨before, text, after ++ [call],
          latest.concat ?_ fun _ => notCompiled⟩
        rintro rfl
        exact notRemoved rfl
      · rw [behind] at found
        rcases RecentMap.get?_insert _ _ _ found with
          ⟨sameUri, sameEntry⟩ | ⟨otherUri, isKept⟩
        · subst sameUri sameEntry
          rw [asks] at compiles behind ⊢
          exact ⟨calls, text, [],
            isLatest_concat compiles behind rfl rfl⟩
        · rw [RecentMap.get?_touch] at isKept
          obtain ⟨before, text, after, latest⟩ := inductionHypothesis isKept
          refine ⟨before, text, after ++ [call], latest.concat ?_ ?_⟩
          · rintro rfl
            exact otherUri rfl
          · exact fun sameUri => absurd sameUri.symm otherUri
      · rw [behind, RecentMap.get?_erase] at found
        split at found
        · contradiction
        · rename_i otherUri
          obtain ⟨before, text, after, latest⟩ := inductionHypothesis found
          refine ⟨before, text, after ++ [call], latest.concat ?_ ?_⟩
          · rintro rfl
            exact otherUri rfl
          · exact fun sameUri => absurd sameUri.symm otherUri

theorem made_le_perform (cache : CompilationCache) (call : CacheCall) :
    cache.made ≤ (cache.perform call).2.made := by
  rcases cache.perform_cases call with
    ⟨-, -, behind⟩ | ⟨-, version, text, made, -, -, behind⟩ | ⟨-, behind⟩
  · rw [behind]
  · rw [behind]
    exact Nat.le_succ _
  · rw [behind]

theorem made_le_performAll (cache : CompilationCache)
    (calls : List CacheCall) : cache.made ≤ (cache.performAll calls).made := by
  induction calls generalizing cache with
  | nil => exact Nat.le_refl _
  | cons call others inductionHypothesis =>
      exact Nat.le_trans (cache.made_le_perform call) (inductionHypothesis _)

/-- A compilation is numbered when it is made. -/
theorem made_answer (compiles : cache.Compiles call) :
    ∃ kept, (cache.perform call).1 = some kept ∧ kept.serial = cache.made ∧
      (cache.perform call).2.made = cache.made + 1 := by
  rcases cache.perform_cases call with
    ⟨notCompiled, -, -⟩ | ⟨-, version, text, made, -, rfl, behind⟩ | ⟨removes, -⟩
  · exact absurd compiles notCompiled
  · rw [behind]
    exact ⟨_, rfl, rfl, rfl⟩
  · rw [removes] at compiles
    exact compiles.elim

/-- No two calls make the same compilation. -/
theorem answer_ne_of_compiles {between : List CacheCall} {other : CacheCall}
    (first : cache.Compiles call)
    (second : ((cache.perform call).2.performAll between).Compiles other) :
    (cache.perform call).1 ≠
      (((cache.perform call).2.performAll between).perform other).1 := by
  obtain ⟨kept, answer, serial, behind⟩ := made_answer first
  obtain ⟨later, laterAnswer, laterSerial, -⟩ := made_answer second
  have grows := (cache.perform call).2.made_le_performAll between
  rw [answer, laterAnswer]
  intro same
  obtain rfl := Option.some.inj same
  omega

/-- A call that asks for a version and does not compile it finds it. -/
theorem get_eq_of_not_compiles {version : Int}
    (asks : call.AsksFor uri version) (notCompiled : ¬cache.Compiles call)
    (answer : (cache.perform call).1 = some kept) :
    (cache.get uri version).1 = some kept := by
  rcases asks with rfl | ⟨text, rfl⟩
  · exact answer
  · cases found : (cache.get uri version).1 with
    | none => exact absurd found notCompiled
    | some asked => simpa [perform, getOrCompile, found] using answer

/-- Whatever is asked of a new cache, it keeps the most recent compilations. -/
theorem ofCapacity_isRecencyStore (positive : 0 < capacity) :
    (ofCapacity capacity).IsRecencyStore capacity where
  length_le calls := by
    obtain ⟨bounded, capacityEq⟩ :=
      (fits_ofCapacity positive).performAll positive calls
    exact bounded.length_le.trans_eq capacityEq
  nodup calls :=
    ((fits_ofCapacity positive).performAll positive calls).bounded.nodup
  sound calls uri version call kept asks notCompiled answer := by
    obtain ⟨found, rfl⟩ :=
      get_eq_some_iff.mp (get_eq_of_not_compiles asks notCompiled answer)
    exact exists_isLatest (fun _ => rfl) found
  distinct before call between other first second := by
    rw [performAll_append, performAll_cons] at second ⊢
    exact answer_ne_of_compiles first second
  retained before uri version text kept after answer notRemoved sameVersion
      fewer := by
    have fits := (fits_ofCapacity positive).performAll positive before
    obtain ⟨rfl, holds⟩ :=
      holdsBehind_answer (Finset.notMem_erase uri _) answer
    have kept := holdsBehind_performAll holds (fits.perform positive _)
      positive fewer
      (fun call isAfter differs => Finset.mem_erase.mpr
        ⟨differs, List.mem_toFinset.mpr (List.mem_map_of_mem isAfter)⟩)
      notRemoved sameVersion
    rw [performAll_append, performAll_cons]
    exact get_eq_some_iff.mpr ⟨kept.get?_eq, rfl⟩

/-- With room for two documents, the first is kept behind the second. -/
theorem ofCapacity_two_isRecencyStore :
    0 < 2 ∧ (ofCapacity 2).IsRecencyStore 2 ∧
      (((ofCapacity 2).performAll
        [.getOrCompile "a" 1 "", .getOrCompile "b" 1 "", .get "a" 1]).get
          "a" 1).1 = some ⟨0, 1, Compilation.ofText ""⟩ := by
  have store : (ofCapacity 2).IsRecencyStore 2 :=
    ofCapacity_isRecencyStore (by decide)
  refine ⟨by decide, store, ?_⟩
  exact store.retained [] "a" 1 "" _ [.getOrCompile "b" 1 "", .get "a" 1]
    rfl (by decide) (by simp) (by decide)

/-- The bound is sharp: as many other documents as there is room for are enough. -/
example : (((ofCapacity 1).performAll
    [.getOrCompile "a" 1 "", .getOrCompile "b" 1 ""]).get "a" 1).1 = none :=
  rfl

end CompilationCache

end WorkflowLang
