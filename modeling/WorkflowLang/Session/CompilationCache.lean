import WorkflowLang.Compilation
import WorkflowLang.Session.RecentMap
import WorkflowLang.Text.Numeral

/-!
# Compilations kept for later

A cache keeps one compilation per document, for one version of it, and a bounded
number of them.  Every compilation made for a cache has a serial number, so that
a compilation that was kept can be told from one made again from the same text.
-/

namespace WorkflowLang

structure CachedCompilation where
  serial : Nat
  version : Int
  compilation : Compilation
  deriving DecidableEq, Inhabited, Repr

/-- The compilations kept, and how many have been made. -/
structure CompilationCache where
  recent : RecentMap CachedCompilation
  made : Nat
  deriving DecidableEq, Inhabited, Repr

namespace CompilationCache

/-- The number of compilations kept where no other number is asked for. -/
def defaultCapacity : Nat := 10

/-- An empty cache; a capacity of zero stands for the default. -/
def ofCapacity (capacity : Nat) : CompilationCache :=
  ⟨RecentMap.empty (if capacity = 0 then defaultCapacity else capacity), 0⟩

/-- An empty cache whose capacity is set by a numeral, if there is one. -/
def ofSetting (setting : Option String) : CompilationCache :=
  ofCapacity ((setting.bind (Text.numeral? UInt64.size)).getD defaultCapacity)

/-- The compilation kept for a version of a document.  Asking for a document is
a use of it, whichever version is kept. -/
def get (cache : CompilationCache) (uri : String) (version : Int) :
    Option CachedCompilation × CompilationCache :=
  let found :=
    (cache.recent.get? uri).filter fun kept => kept.version == version
  (found, { cache with recent := cache.recent.touch uri })

/-- The compilation kept for a version of a document, or else a new one of a
text, which is kept from then on. -/
def getOrCompile (cache : CompilationCache) (uri : String) (version : Int)
    (text : String) : CachedCompilation × CompilationCache :=
  let asked := cache.get uri version
  match asked.1 with
  | some kept => (kept, asked.2)
  | none =>
      let made : CachedCompilation :=
        ⟨cache.made, version, Compilation.ofText text⟩
      (made, ⟨asked.2.recent.insert uri made, cache.made + 1⟩)

/-- Forgets a document; the answer is what was kept for it. -/
def remove (cache : CompilationCache) (uri : String) :
    Option CachedCompilation × CompilationCache :=
  (cache.recent.get? uri,
    { cache with recent := cache.recent.erase uri })

end CompilationCache
end WorkflowLang
