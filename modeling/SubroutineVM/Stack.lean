/-!
Stacks that know their size. A stack is determined by its items (`Stack.ext`), listed top first;
`toList` lists them bottom first, as outcomes and traces show them.
-/
namespace SubroutineVM

structure Stack (α : Type) where
  /-- The items, the top first. -/
  items : List α
  size : Nat
  size_eq : size = items.length

namespace Stack

variable {α : Type}

@[ext] theorem ext {s t : Stack α} (items : s.items = t.items) : s = t := by
  obtain ⟨sItems, sSize, sEq⟩ := s
  obtain ⟨tItems, tSize, tEq⟩ := t
  cases items
  cases sEq
  cases tEq
  rfl

def empty : Stack α := ⟨[], 0, rfl⟩

def ofItems (items : List α) : Stack α := ⟨items, items.length, rfl⟩

/-- The items, the bottom first. -/
def toList (s : Stack α) : List α := s.items.reverse

def push (s : Stack α) (a : α) : Stack α := ⟨a :: s.items, s.size + 1, by simp [s.size_eq]⟩

def pop? : Stack α → Option (α × Stack α)
  | ⟨[], _, _⟩ => none
  | ⟨a :: rest, size, eq⟩ => some (a, ⟨rest, size - 1, by simp [eq]⟩)

def peek? (s : Stack α) (n : Nat) : Option α := s.items[n]?

/-- The top exchanged with the item `n + 1` places below it. -/
def swap? : Stack α → Nat → Option (Stack α)
  | ⟨[], _, _⟩, _ => none
  | ⟨a :: rest, size, eq⟩, n =>
    rest[n]?.map fun b => ⟨b :: rest.set n a, size, by simpa using eq⟩

instance [DecidableEq α] : DecidableEq (Stack α) := fun s t =>
  decidable_of_iff (s.items = t.items) ⟨ext, congrArg items⟩

@[simp] theorem items_empty : (empty : Stack α).items = [] := rfl

@[simp] theorem items_ofItems (items : List α) : (ofItems items).items = items := rfl

@[simp] theorem items_push (s : Stack α) (a : α) : (s.push a).items = a :: s.items := rfl

@[simp] theorem size_push (s : Stack α) (a : α) : (s.push a).size = s.size + 1 := rfl

theorem pop?_eq_some_iff {s t : Stack α} {a : α} :
    s.pop? = some (a, t) ↔ s.items = a :: t.items := by
  obtain ⟨items, size, eq⟩ := s
  cases items with
  | nil => simp [pop?]
  | cons b rest =>
    simp only [pop?, Option.some.injEq, Prod.mk.injEq, List.cons.injEq]
    constructor
    · rintro ⟨rfl, rfl⟩
      exact ⟨rfl, rfl⟩
    · rintro ⟨rfl, below⟩
      exact ⟨rfl, ext below⟩

theorem pop?_eq_none_iff {s : Stack α} : s.pop? = none ↔ s.size = 0 := by
  obtain ⟨items, size, eq⟩ := s
  cases items <;> simp_all [pop?]

theorem swap?_eq_some_iff {s t : Stack α} {n : Nat} :
    s.swap? n = some t ↔
      ∃ a b rest, s.items = a :: rest ∧ rest[n]? = some b ∧ t.items = b :: rest.set n a := by
  obtain ⟨items, size, eq⟩ := s
  cases items with
  | nil => simp [swap?]
  | cons a rest =>
    simp only [swap?, Option.map_eq_some_iff]
    constructor
    · rintro ⟨b, found, rfl⟩
      exact ⟨a, b, rest, rfl, found, rfl⟩
    · rintro ⟨a', b, rest', same, found, after⟩
      cases same
      exact ⟨b, found, ext after.symm⟩

end Stack

end SubroutineVM
