import Song.Proofs.Grammar.Joined
import Song.Proofs.Value.LocalFunctions

/-!
# What the library binds

Each line of the library is empty or one declaration. A function of the library therefore has the
clauses on the lines of its name, and captured a context in which all that is declared before its
first line, and never again, is bound as it is in the end.
-/
namespace Song.Library

def read? (text : List Char) : Option (List Expr) :=
  (Grammar.readAll Grammar.program text).toOption

theorem read?_eq_some_iff {text : List Char} {statements : List Expr} :
    read? text = some statements ↔ Grammar.readAll Grammar.program text = .ok statements := by
  rw [read?]
  cases Grammar.readAll Grammar.program text <;> simp [Except.toOption]

theorem read?_joined {first : String} {second : List Char} {statements later : List Expr}
    (hfirst : read? first.toList = some statements) (hsecond : read? second = some later) :
    read? (first.toList ++ ['\n'] ++ second) = some (statements ++ later) := by
  rw [read?_eq_some_iff] at hfirst hsecond ⊢
  have hjoined := parseProgram_joined_eq hfirst (String.ofList second)
  simp only [parseProgram, String.toList_append, String.toList_ofList, hsecond] at hjoined
  exact hjoined

def declareLine (context : Bindings) (line : String) : Bindings :=
  ((read? line.toList).getD []).foldl declareIn context

/-- A source whose lines can be read is declared line by line. -/
theorem foldl_statementsOf {lines : List String}
    (h : ∀ line ∈ lines, (read? line.toList).isSome = true) (context : Bindings) :
    (statementsOf lines).foldl declareIn context = lines.foldl declareLine context := by
  have hread : Grammar.readAll Grammar.program (lines.flatMap fun line => line.toList ++ ['\n']) =
      .ok (lines.flatMap fun line => (read? line.toList).getD []) := by
    rw [← read?_eq_some_iff]
    induction lines with
    | nil => rfl
    | cons line rest ih =>
      obtain ⟨hline, hrest⟩ := List.forall_mem_cons.1 h
      obtain ⟨statements, hstatements⟩ := Option.isSome_iff_exists.1 hline
      rw [List.flatMap_cons, List.flatMap_cons, read?_joined hstatements (ih hrest), hstatements]
      rfl
  simp only [statementsOf, hread, List.foldl_flatMap]
  rfl

/-- The name that a declaration binds, of a clause that can be matched or of a number. -/
def boundName? : Expr → Option String
  | .function clause => if (Expr.floatAmong? clause.patterns).isNone then clause.name else none
  | .assign (.name n) (.number _) => some n
  | _ => none

section Declaration

variable {f : String} {clause : Clause Expr} {context : Bindings}

theorem boundName?_function (h : boundName? (.function clause) = some f) :
    clause.name = some f ∧ Expr.floatAmong? clause.patterns = none := by
  rw [boundName?] at h
  split at h
  case isTrue hfloat => exact ⟨h, Option.isNone_iff_eq_none.1 hfloat⟩
  case isFalse => cases h

theorem declareIn_function {closure : Closure Expr} (hname : closure.name = some f)
    (h : declare clause context = .ok (.closure closure)) :
    declareIn context (.function clause) = context.insert f (.closure closure) := by
  rw [declareIn, declarationLimit, execute_of_declare h hname]

/-- The first clause of a function captures the context without the function's name. -/
theorem declareIn_first (h : boundName? (.function clause) = some f)
    (hnew : context.get? f = none) :
    declareIn context (.function clause) =
      context.insert f (.closure ⟨some f, [clause], context.erase f⟩) := by
  obtain ⟨hname, hfloat⟩ := boundName?_function h
  apply declareIn_function rfl
  apply declare_of_new hname hfloat
  intro closure hclosure
  rw [hnew] at hclosure
  cases hclosure

theorem declareIn_next {clauses : List (Clause Expr)} {captured : Bindings}
    (h : boundName? (.function clause) = some f)
    (hget : context.get? f = some (.closure ⟨some f, clauses, captured⟩)) :
    declareIn context (.function clause) =
      context.insert f (.closure ⟨some f, clauses ++ [clause], captured⟩) := by
  obtain ⟨hname, hfloat⟩ := boundName?_function h
  exact declareIn_function rfl (declare_of_bound hname hfloat hget rfl)

/-- A declaration changes no binding but that of its name. -/
theorem get?_declareIn {statement : Expr} (h : boundName? statement = some f) {g : String}
    (hne : f ≠ g) : (declareIn context statement).get? g = context.get? g := by
  unfold boundName? at h
  split at h
  case h_1 clause =>
    have hbound : boundName? (.function clause) = some f := h
    obtain ⟨hname, hfloat⟩ := boundName?_function hbound
    have hdeclared : ∃ closure : Closure Expr, closure.name = some f ∧
        declare clause context = .ok (.closure closure) := by
      by_cases hexisting : ∃ closure, context.get? f = some (.closure closure) ∧
          closure.name = some f
      · obtain ⟨closure, hget, hclosure⟩ := hexisting
        exact ⟨closure.withClause clause, hclosure, declare_of_bound hname hfloat hget hclosure⟩
      · exact ⟨_, rfl, declare_of_new hname hfloat fun closure hget hclosure =>
          hexisting ⟨closure, hget, hclosure⟩⟩
    obtain ⟨closure, hclosure, hdeclare⟩ := hdeclared
    rw [declareIn_function hclosure hdeclare, Context.get?_insert, if_neg hne]
  case h_2 n value =>
    cases h
    have hdeclare : declareIn context (.assign (.name f) (.number value)) =
        (Context.empty.insert f (.number value)).mergeFavouring context := rfl
    rw [hdeclare, Context.get?_mergeFavouring, Context.get?_insert, if_neg hne, Context.get?_empty,
      Option.none_or]
  case h_3 => cases h

end Declaration

/-- The name that a line binds, which is empty if the line is. -/
def nameIn? (text : List Char) : Option String :=
  match read? text with
  | some [] => some ""
  | some [statement] => boundName? statement
  | _ => none

theorem nameIn?_cases {text : List Char} {name : String} (h : nameIn? text = some name) :
    (read? text = some [] ∧ name = "") ∨
      ∃ statement, read? text = some [statement] ∧ boundName? statement = some name := by
  rw [nameIn?] at h
  split at h
  case h_1 hread => exact Or.inl ⟨hread, (Option.some.inj h).symm⟩
  case h_2 statement hread => exact Or.inr ⟨statement, hread, h⟩
  case h_3 => cases h

/-- A line changes no binding but that of its name. -/
theorem get?_declareLine {line name other : String} (h : nameIn? line.toList = some name)
    (hne : name ≠ other) (context : Bindings) :
    (declareLine context line).get? other = context.get? other := by
  rcases nameIn?_cases h with ⟨hread, -⟩ | ⟨statement, hread, hname⟩
  · rw [declareLine, hread]
    rfl
  · rw [declareLine, hread]
    exact get?_declareIn hname hne

abbrev Entries := List (String × String)

namespace Entries

def Named (entries : Entries) : Prop :=
  ∀ entry ∈ entries, nameIn? entry.2.toList = some entry.1

def linesOf (entries : Entries) (f : String) : List String :=
  (entries.filter fun entry => entry.1 = f).map Prod.snd

/-- The lines that bind the name are these clauses. -/
def Defines (entries : Entries) (f : String) (clauses : List (Clause Expr)) : Prop :=
  (linesOf entries f).map (fun line => read? line.toList) =
    clauses.map fun clause => some [.function clause]

def declared (entries : Entries) (context : Bindings) : Bindings :=
  (entries.map Prod.snd).foldl declareLine context

variable {entries : Entries} {f : String} {clauses more : List (Clause Expr)}
  {context captured : Bindings}

theorem declared_cons (entry : String × String) (entries : Entries) (context : Bindings) :
    declared (entry :: entries) context = declared entries (declareLine context entry.2) :=
  rfl

theorem get?_declared (h : Named entries) {g : String} (hg : g ∉ entries.map Prod.fst)
    (context : Bindings) : (declared entries context).get? g = context.get? g := by
  induction entries generalizing context with
  | nil => rfl
  | cons entry rest ih =>
    obtain ⟨hentry, hrest⟩ := List.forall_mem_cons.1 h
    rw [List.map_cons, List.mem_cons, not_or] at hg
    rw [declared_cons, ih hrest hg.2, get?_declareLine hentry (Ne.symm hg.1)]

/-- The first line that binds the name is the first of the clauses. -/
theorem Defines.cons {entry : String × String} (h : Defines (entry :: entries) f clauses)
    (hf : entry.1 = f) : ∃ clause rest, clauses = clause :: rest ∧
      read? entry.2.toList = some [.function clause] ∧ Defines entries f rest := by
  rw [Defines, linesOf, List.filter_cons_of_pos (by simpa using hf), List.map_cons,
    List.map_cons] at h
  cases clauses with
  | nil => cases h
  | cons clause rest =>
    rw [List.map_cons, List.cons.injEq] at h
    exact ⟨clause, rest, rfl, h.1, h.2⟩

theorem Defines.of_ne {entry : String × String} (h : Defines (entry :: entries) f clauses)
    (hf : entry.1 ≠ f) : Defines entries f clauses := by
  rwa [Defines, linesOf, List.filter_cons_of_neg (by simpa using hf)] at h

theorem boundName?_of_nameIn? {text : List Char} {statement : Expr} {name : String}
    (h : nameIn? text = some name) (hread : read? text = some [statement]) :
    boundName? statement = some name := by
  rw [nameIn?, hread] at h
  exact h

/-- A function that has clauses already gets the others after them. -/
theorem get?_declared_next (h : Named entries) (hmore : Defines entries f more)
    (hget : context.get? f = some (.closure ⟨some f, clauses, captured⟩)) :
    (declared entries context).get? f =
      some (.closure ⟨some f, clauses ++ more, captured⟩) := by
  induction entries generalizing context clauses more with
  | nil =>
    have hmore : more = [] := List.map_eq_nil_iff.1 hmore.symm
    rw [hmore, List.append_nil]
    exact hget
  | cons entry rest ih =>
    obtain ⟨hentry, hrest⟩ := List.forall_mem_cons.1 h
    rw [declared_cons]
    by_cases hf : entry.1 = f
    · obtain ⟨clause, later, rfl, hread, hlater⟩ := hmore.cons hf
      rw [hf] at hentry
      have hnext : declareLine context entry.2 =
          context.insert f (.closure ⟨some f, clauses ++ [clause], captured⟩) := by
        rw [declareLine, hread]
        exact declareIn_next (boundName?_of_nameIn? hentry hread) hget
      rw [hnext, ih hrest hlater (by rw [Context.get?_insert, if_pos rfl]), List.append_assoc,
        List.singleton_append]
    · exact ih hrest (hmore.of_ne hf) (by rw [get?_declareLine hentry hf, hget])

/-- A function has the clauses of its lines. What is bound on none of the lines from its first one
on, it captured as it is after all of them. -/
theorem exists_captured (h : Named entries) (hclauses : Defines entries f clauses)
    (hne : clauses ≠ []) (hnew : context.get? f = none) :
    ∃ captured : Bindings,
      (declared entries context).get? f = some (.closure ⟨some f, clauses, captured⟩) ∧
      ∀ g ∉ (entries.map Prod.fst).dropWhile (· ≠ f),
        captured.get? g = (declared entries context).get? g := by
  induction entries generalizing context with
  | nil => exact absurd (List.map_eq_nil_iff.1 hclauses.symm) hne
  | cons entry rest ih =>
    obtain ⟨hentry, hrest⟩ := List.forall_mem_cons.1 h
    rw [declared_cons]
    by_cases hf : entry.1 = f
    · obtain ⟨clause, later, rfl, hread, hlater⟩ := hclauses.cons hf
      rw [hf] at hentry
      have hfirst : declareLine context entry.2 =
          context.insert f (.closure ⟨some f, [clause], context.erase f⟩) := by
        rw [declareLine, hread]
        exact declareIn_first (boundName?_of_nameIn? hentry hread) hnew
      -- A name that none of the later lines binds is bound in the end as it is captured here.
      refine ⟨context.erase f, ?_, ?_⟩
      · rw [hfirst, get?_declared_next hrest hlater (by rw [Context.get?_insert, if_pos rfl]),
          List.singleton_append]
      · intro g hg
        rw [List.map_cons, List.dropWhile_cons_of_neg (by simpa using hf), List.mem_cons,
          not_or, hf] at hg
        rw [get?_declared hrest hg.2, get?_declareLine hentry (Ne.symm hg.1), Context.get?_erase,
          if_neg (Ne.symm hg.1)]
    · obtain ⟨captured, hget, hcaptured⟩ :=
        ih hrest (hclauses.of_ne hf) (by rw [get?_declareLine hentry hf, hnew])
      refine ⟨captured, hget, ?_⟩
      intro g hg
      apply hcaptured g
      rwa [List.map_cons, List.dropWhile_cons_of_pos (by simpa using hf)] at hg

end Entries

def mathNames : List String :=
  ["pi", "e", "", "abs", "abs", "", "sign", "sign", "sign", "", "min", "min", "", "max", "max", "",
    "clamp", "", "sqrt", "", "isEven", "isOdd", "", "gcd", "gcd", "", "lcm", "lcm", "lcm", "",
    "factorial", "factorial", "factorial", "", "fibonacci", "fibonacci", "fibonacci", "",
    "floor", "floor", "", "ceiling", "ceiling", "", "round"]

def listNames : List String :=
  ["head", "tail", "", "isEmpty", "isEmpty", "", "reverse", "reverse", "reverse", "",
    "length", "length", "length", "", "last", "last", "", "nth", "nth", "", "fold", "fold", "",
    "sum", "product", "concat", "", "map", "map", "map", "",
    "filter", "filter", "filter", "filter", "", "all", "all", "all", "", "any", "any", "any", "",
    "contains", "contains", "contains", "", "range", "range", "range", "",
    "take", "take", "take", "take", "", "drop", "drop", "drop", "", "zip", "zip", "zip", "zip"]

def stringNames : List String :=
  ["isDigit", "isUpper", "isLower", "isSpace", "", "upper", "upper", "", "lower", "lower", "",
    "toUpper", "toLower", "", "trimStart", "trimStart", "trimEnd", "trim", "",
    "join", "join", "join", "", "split", "split", "split", "split", "", "words", "lines", "",
    "repeat", "repeat", "", "startsWith", "startsWith", "startsWith"]

/-- The name that each line of the library binds, which is empty for an empty line. -/
def names : List String :=
  mathNames ++ listNames ++ stringNames

def entries : Entries :=
  names.zip sources.flatten

/-- The lines are these texts. Each literal is decoded where the relation is built, so that what
is computed from the texts afterwards need not do so. -/
inductive Spelt : List String → List (List Char) → Prop
  | nil : Spelt [] []
  | cons {lines : List String} {texts : List (List Char)} (text : List Char)
    (h : Spelt lines texts) : Spelt (String.ofList text :: lines) (text :: texts)

theorem Spelt.map_eq {α : Type} {lines : List String} {texts : List (List Char)}
    (h : Spelt lines texts) {f : List Char → α} {results : List α} (heq : texts.map f = results) :
    lines.map (fun line => f line.toList) = results := by
  subst heq
  induction h with
  | nil => rfl
  | cons text _ ih => rw [List.map_cons, ih, String.toList_ofList, List.map_cons]

theorem map_nameIn? : sources.flatten.map (fun line => nameIn? line.toList) = names.map some := by
  apply Spelt.map_eq
  · repeat constructor
  · decide +kernel

theorem entries_named : Entries.Named entries := by
  have hlines : List.Forall₂ (fun name line => nameIn? line.toList = some name) names
      sources.flatten := by
    rw [← List.forall₂_map_right_iff (f := fun line : String => nameIn? line.toList)
      (R := fun name found => found = some name), map_nameIn?, List.forall₂_map_right_iff]
    exact List.forall₂_refl names
  intro entry hentry
  exact List.forall₂_zip hlines hentry

theorem length_lines : sources.flatten.length = names.length := by
  have hlength := congrArg List.length map_nameIn?
  rwa [List.length_map, List.length_map] at hlength

theorem map_snd_entries : entries.map Prod.snd = sources.flatten :=
  List.map_snd_zip length_lines.le

theorem map_fst_entries : entries.map Prod.fst = names :=
  List.map_fst_zip length_lines.ge

theorem foldl_flatMap_statementsOf {parts : List (List String)}
    (h : ∀ line ∈ parts.flatten, (read? line.toList).isSome = true) (context : Bindings) :
    (parts.flatMap statementsOf).foldl declareIn context =
      parts.flatten.foldl declareLine context := by
  induction parts generalizing context with
  | nil => rfl
  | cons lines rest ih =>
    rw [List.flatten_cons, List.forall_mem_append] at h
    rw [List.flatMap_cons, List.foldl_append, foldl_statementsOf h.1, ih h.2, List.flatten_cons,
      List.foldl_append]

/-- The library is declared line by line. -/
theorem startup_eq : startup = Entries.declared entries BuiltIn.startingContext := by
  have hread : ∀ line ∈ sources.flatten, (read? line.toList).isSome = true := by
    rw [← map_snd_entries, List.forall_mem_map]
    intro entry hentry
    rcases nameIn?_cases (entries_named entry hentry) with ⟨hread, -⟩ | ⟨statement, hread, -⟩
    all_goals
      rw [hread]
      rfl
  rw [startup, load, statements, foldl_flatMap_statementsOf hread, Entries.declared,
    map_snd_entries]

/-- The built-in functions stay bound, except where the library binds their names. -/
theorem get?_startup {g : String} (hg : g ∉ names) :
    startup.get? g = BuiltIn.startingContext.get? g := by
  rw [← map_fst_entries] at hg
  rw [startup_eq, Entries.get?_declared entries_named hg]

/-- The library binds the name to a function of these clauses, which captured the names that it
uses as the library binds them. -/
def Provides (f : String) (clauses : List (Clause Expr)) (uses : List String) : Prop :=
  ∃ captured : Bindings, startup.get? f = some (.closure ⟨some f, clauses, captured⟩) ∧
    ∀ g ∈ uses, captured.get? g = startup.get? g

/-- It is enough that the lines of the function are its clauses and no line binds a used name from
the first of them on. -/
theorem provides_of_spelt {f : String} {clauses : List (Clause Expr)} {uses : List String}
    {texts : List (List Char)} (hspelt : Spelt (Entries.linesOf entries f) texts)
    (hclauses : texts.map read? = clauses.map fun clause => some [.function clause])
    (hne : clauses ≠ []) (hnew : ∀ b ∈ BuiltIn.all, ∀ name ∈ b.token :: b.aliases, name ≠ f)
    (huses : ∀ g ∈ uses, g ∉ names.dropWhile (· ≠ f)) : Provides f clauses uses := by
  obtain ⟨captured, hget, hcaptured⟩ :=
    Entries.exists_captured entries_named (hspelt.map_eq hclauses) hne
      (get?_startingContext_eq_none hnew)
  rw [← startup_eq, map_fst_entries] at hcaptured
  rw [← startup_eq] at hget
  exact ⟨captured, hget, fun g hg => hcaptured g (huses g hg)⟩

end Song.Library
