/-!
# Contexts

A context binds names to values. It is kept as a list of bindings in the order
of their names, so that two contexts built in different ways from the same
bindings are equal. Looking up what was inserted, erased or merged is described
by one equation for each operation.
-/
namespace Song

/-- Bindings of names, in ascending order of the names. -/
structure Context (α : Type) where
  bindings : List (String × α)

namespace Context

variable {α : Type}

def empty : Context α :=
  ⟨[]⟩

/-- The value of the first binding of a name in a list of bindings. -/
def find? (name : String) : List (String × α) → Option α
  | [] => none
  | binding :: rest => if binding.1 = name then some binding.2 else find? name rest

/-- Puts a binding in its place, instead of the one of the same name. -/
def place (name : String) (value : α) : List (String × α) → List (String × α)
  | [] => [(name, value)]
  | binding :: rest =>
    if binding.1 = name then (name, value) :: rest
    else if name < binding.1 then (name, value) :: binding :: rest
    else binding :: place name value rest

def get? (context : Context α) (name : String) : Option α :=
  find? name context.bindings

def contains (context : Context α) (name : String) : Bool :=
  (context.get? name).isSome

/-- Binds a name, instead of what it was bound to. -/
def insert (context : Context α) (name : String) (value : α) : Context α :=
  ⟨place name value context.bindings⟩

def erase (context : Context α) (name : String) : Context α :=
  ⟨context.bindings.filter fun binding => binding.1 ≠ name⟩

/-- The context with these bindings inserted; of two for one name the first counts. -/
def insertAll (context : Context α) (bindings : List (String × α)) : Context α :=
  bindings.foldr (fun binding c => c.insert binding.1 binding.2) context

/-- The context with these bindings only; of two for one name the last counts. -/
def ofList (bindings : List (String × α)) : Context α :=
  empty.insertAll bindings.reverse

/-- The bindings of both contexts, where those of `winner` count for names bound in both. -/
def mergeFavouring (winner loser : Context α) : Context α :=
  loser.insertAll winner.bindings

/-- Which of two contexts counts for a name that both bind. -/
inductive Precedence where
  | ours
  | theirs
deriving Repr, DecidableEq

/-- The bindings of both contexts, where those of the preferred one count for names bound in
both. -/
def merge (ours theirs : Context α) : Precedence → Context α
  | .ours => ours.mergeFavouring theirs
  | .theirs => theirs.mergeFavouring ours

def size (context : Context α) : Nat :=
  context.bindings.length

def isEmpty (context : Context α) : Bool :=
  context.bindings.isEmpty

def keys (context : Context α) : List String :=
  (context.bindings.map Prod.fst).mergeSort fun a b => decide (a ≤ b)

/-- One line `name = value` for each binding, in ascending order of the names. -/
def describe (render : α → String) (context : Context α) : String :=
  let entries := context.bindings.mergeSort fun a b => decide (a.1 ≤ b.1)
  "\n".intercalate (entries.map fun binding => binding.1 ++ " = " ++ render binding.2)

@[simp] theorem get?_empty (name : String) : (empty : Context α).get? name = none := rfl

theorem find?_place (name other : String) (value : α) (bindings : List (String × α)) :
    find? other (place name value bindings) =
      if name = other then some value else find? other bindings := by
  induction bindings with
  | nil => simp [place, find?]
  | cons binding rest ih =>
    obtain ⟨key, old⟩ := binding
    by_cases hk : key = name
    · subst hk
      by_cases ho : key = other <;> simp [place, find?, ho]
    · by_cases hlt : name < key
      · simp [place, find?, hk, hlt]
      · by_cases ho : name = other
        · subst ho
          simp [place, find?, hk, hlt, ih]
        · simp [place, find?, hk, hlt, ih, ho]

theorem get?_insert (context : Context α) (name other : String) (value : α) :
    (context.insert name value).get? other =
      if name = other then some value else context.get? other :=
  find?_place name other value context.bindings

theorem find?_filter (name other : String) (bindings : List (String × α)) :
    find? other (bindings.filter fun binding => binding.1 ≠ name) =
      if name = other then none else find? other bindings := by
  induction bindings with
  | nil => simp [find?]
  | cons binding rest ih =>
    obtain ⟨key, old⟩ := binding
    by_cases hk : key = name
    · subst hk
      by_cases ho : key = other <;> simp_all [find?]
    · by_cases ho : name = other <;> by_cases hko : key = other <;> simp_all [find?]

theorem get?_erase (context : Context α) (name other : String) :
    (context.erase name).get? other = if name = other then none else context.get? other :=
  find?_filter name other context.bindings

theorem get?_insertAll (context : Context α) (bindings : List (String × α)) (name : String) :
    (context.insertAll bindings).get? name = (find? name bindings).or (context.get? name) := by
  induction bindings with
  | nil => simp [insertAll, find?]
  | cons binding rest ih =>
    obtain ⟨key, value⟩ := binding
    have hstep : context.insertAll ((key, value) :: rest) =
        (context.insertAll rest).insert key value := rfl
    rw [hstep, get?_insert, ih, find?]
    split <;> simp

theorem get?_ofList (bindings : List (String × α)) (name : String) :
    (ofList bindings).get? name = find? name bindings.reverse := by
  rw [ofList, get?_insertAll, get?_empty, Option.or_none]

theorem get?_mergeFavouring (winner loser : Context α) (name : String) :
    (mergeFavouring winner loser).get? name = (winner.get? name).or (loser.get? name) :=
  get?_insertAll loser winner.bindings name

end Context
end Song
