import Song.Proofs.Evaluation.Limit
import Song.Proofs.Expr.Names

/-!
# Evaluation makes up no names

All names in what an evaluation gives are names of the expression or of the context. This holds of
values, of the expressions within which a failure arose, and of what the cause of a failure is
about. Each rule of evaluation keeps to it if the reductions that it makes do.
-/
namespace Song

namespace Cause

def subjects : Cause → List Expr
  | signatureMismatch args => args
  | notAClosure e | notABoolean e | notANumber e | notACharacter e | notAList e | notAFunction e
  | floatPattern e => [e]
  | notComparable left right => [left, right]
  | _ => []

/-- All names in what the cause is about are words, and the reason for a failure of the streams is
the one that they have. -/
def NamedBy (word : String → Prop) : Cause → Prop
  | unknownSymbol name => word name
  | inputOutput reason => reason = Streams.undecodableReason
  | cause => ∀ e ∈ cause.subjects, e.NamedBy word

end Cause

structure Failure.NamedBy (word : String → Prop) (f : Failure) : Prop where
  within : ∀ e ∈ f.within, e.NamedBy word
  cause : f.cause.NamedBy word

/-- The result has the property, or all names in the cause are words. -/
def ResultNamed {α : Type} (word : String → Prop) (P : α → Prop) : Except Cause α → Prop
  | .ok a => P a
  | .error cause => cause.NamedBy word

def OutcomeNamed {α : Type} (word : String → Prop) (P : α → Prop) : Outcome α → Prop
  | .value a _ => P a
  | .failure f _ => f.NamedBy word
  | .exhausted => True

variable {α β : Type} {word : String → Prop} {P : α → Prop} {Q : β → Prop}

theorem ResultNamed.bind {first : Except Cause α} {next : α → Except Cause β}
    (h : ResultNamed word P first) (hn : ∀ a, P a → ResultNamed word Q (next a)) :
    ResultNamed word Q (first >>= next) := by
  cases first with
  | error cause => exact h
  | ok a => exact hn a h

namespace OutcomeNamed

variable {outcome : Outcome α}

theorem fail {cause : Cause} {streams : Streams} (h : cause.NamedBy word) :
    OutcomeNamed word P (.fail cause streams) :=
  ⟨List.forall_mem_nil _, h⟩

theorem ofExcept {result : Except Cause α} (h : ResultNamed word P result) (streams : Streams) :
    OutcomeNamed word P (.ofExcept result streams) := by
  cases result with
  | error cause => exact fail h
  | ok a => exact h

theorem andThen (h : OutcomeNamed word P outcome) {next : α → Streams → Outcome β}
    (hn : ∀ a streams, P a → OutcomeNamed word Q (next a streams)) :
    OutcomeNamed word Q (outcome.andThen next) := by
  cases outcome with
  | value a streams => exact hn a streams h
  | failure f streams => exact ⟨h.within, h.cause⟩
  | exhausted => exact trivial

theorem inside {e : Expr} (he : e.NamedBy word) (h : OutcomeNamed word P outcome) :
    OutcomeNamed word P (outcome.inside e) := by
  cases outcome with
  | failure f streams => exact ⟨List.forall_mem_cons.2 ⟨he, h.within⟩, h.cause⟩
  | _ => exact h

theorem located {e : Expr} {P : Expr → Prop} {outcome : Outcome Expr} (he : e.NamedBy word)
    (h : OutcomeNamed word P outcome) : OutcomeNamed word P (Reduction.located e outcome) := by
  cases e <;> first | exact h | exact h.inside he

end OutcomeNamed

abbrev CauseNamed (word : String → Prop) (result : Except Cause α) : Prop :=
  ResultNamed word (fun _ => True) result

theorem CauseNamed.map {result : Except Cause α} (h : CauseNamed word result) (f : α → β) :
    CauseNamed word (result.map f) := by
  cases result with
  | error cause => exact h
  | ok a => exact trivial

namespace Expr

/-- A match binds names of the pattern, and fails only for a double. -/
def MatchNamed (word : String → Prop) : Except Cause (Option Bindings) → Prop :=
  ResultNamed word fun bound? => ∀ bound ∈ bound?, bound.Names word

theorem float_namedBy (x : Float) : (Cause.floatPattern (.number (.float x))).NamedBy word :=
  List.forall_mem_singleton.2 (.leaf rfl rfl rfl)

mutual
theorem matchPattern_named (pattern v : Expr) (bound : Bindings) (hp : pattern.NamedBy word)
    (hb : bound.Names word) : MatchNamed word (matchPattern pattern v bound) := by
  have hsome {bound : Bindings} (h : bound.Names word) : MatchNamed word (.ok (some bound)) := by
    rintro _ ⟨⟩
    exact h
  have hif (holds : Bool) : MatchNamed word (.ok (if holds then some bound else none)) := by
    cases holds
    · exact nofun
    · exact hsome hb
  match pattern with
  | .wildcard => exact hsome hb
  | .name n =>
    rw [matchPattern]
    split
    · exact float_namedBy _
    · exact hif _
    · exact hsome (hb.insert (hp.ownName n rfl) v)
  | .cons heads tail =>
    have hheads := matchItems_named heads fun p hmem => hp.part p (List.mem_append_left _ hmem)
    rw [matchPattern]
    split
    · exact nofun
    case h_2 items _ =>
      split
      · exact nofun
      · have hmatch := hheads items bound hb
        split
        case h_1 inner hinner =>
          rw [hinner] at hmatch
          exact matchPattern_named tail _ inner (hp.part _ (by simp [parts])) (hmatch inner rfl)
        case h_2 => exact hmatch
  | .list patterns =>
    rw [matchPattern]
    split
    · exact nofun
    · split
      · exact matchItems_named patterns hp.part _ bound hb
      · exact nofun
  | .number (.float x) => exact float_namedBy x
  | .number (.int _) | .bool _ | .char _ | .function _ | .assign .. | .closure _ | .block _
  | .call .. | .apply .. | .deferred .. | .builtIn _ => exact hif _
termination_by structural pattern

theorem matchItems_named (patterns : List Expr) (hp : ∀ p ∈ patterns, p.NamedBy word)
    (values : List Expr) (bound : Bindings) (hb : bound.Names word) :
    MatchNamed word (matchItems patterns values bound) := by
  match patterns with
  | [] =>
    rintro _ ⟨⟩
    exact hb
  | pattern :: patterns =>
    match values with
    | [] => exact nofun
    | v :: values =>
      obtain ⟨hfirst, hrest⟩ := List.forall_mem_cons.1 hp
      have hmatch := matchPattern_named pattern v bound hfirst hb
      rw [matchItems]
      split
      case h_1 inner hinner =>
        rw [hinner] at hmatch
        exact matchItems_named patterns hrest values inner (hmatch inner rfl)
      case h_2 => exact hmatch
termination_by structural patterns
end

theorem matchParameters_named {patterns : List Expr} (hp : ∀ p ∈ patterns, p.NamedBy word)
    (args : List Expr) : MatchNamed word (matchParameters patterns args) := by
  rw [matchParameters]
  split
  · exact matchItems_named patterns hp args .empty Context.names_empty
  · exact nofun

mutual
/-- The first double of a pattern is a double. -/
theorem floatIn?_eq_some (p : Expr) {e : Expr} (h : floatIn? p = some e) :
    ∃ x, e = .number (.float x) := by
  match p with
  | .number (.float x) =>
    cases h
    exact ⟨x, rfl⟩
  | .list patterns => exact floatAmong?_eq_some patterns h
  | .cons heads tail =>
    rcases Option.or_eq_some_iff.1 h with h | ⟨-, h⟩
    · exact floatAmong?_eq_some heads h
    · exact floatIn?_eq_some tail h
  | .number (.int _) | .bool _ | .char _ | .wildcard | .name _ | .function _ | .assign ..
  | .closure _ | .block _ | .call .. | .apply .. | .deferred .. | .builtIn _ => cases h
termination_by structural p

theorem floatAmong?_eq_some (ps : List Expr) {e : Expr} (h : floatAmong? ps = some e) :
    ∃ x, e = .number (.float x) := by
  match ps with
  | [] => cases h
  | p :: rest =>
    rcases Option.or_eq_some_iff.1 h with h | ⟨-, h⟩
    · exact floatIn?_eq_some p h
    · exact floatAmong?_eq_some rest h
termination_by structural ps
end

end Expr

open Song.Expr (NamedBy)

theorem declare_named {clause : Clause Expr} {context : Bindings}
    (h : (Expr.function clause).NamedBy word) (hc : context.All (NamedBy word)) :
    ResultNamed word (NamedBy word) (declare clause context) := by
  cases hd : declare clause context with
  | ok v => exact NamedBy.declared h hc hd
  | error cause =>
    rw [declare] at hd
    split at hd
    case h_1 e he =>
      obtain ⟨x, rfl⟩ := Expr.floatAmong?_eq_some _ he
      cases hd
      exact Expr.float_namedBy x
    case h_2 =>
      split at hd
      · cases hd
      · split at hd
        · split at hd <;> cases hd
        · cases hd

/-- Installing a value adds only names of the value. -/
theorem install_named {v : Expr} (context : Bindings) (hv : v.NamedBy word) :
    ResultNamed word (fun next => context.Names word → next.Names word) (install v context) := by
  cases v with
  | closure c =>
    rw [install]
    split
    case h_1 n hname => exact fun hn => hn.insert (hv.ownName n hname) _
    case h_2 => exact id
  | assign target assigned =>
    have hmatch := Expr.matchPattern_named target assigned .empty
      (hv.part target List.mem_cons_self) Context.names_empty
    rw [install]
    split
    case h_1 bound hbound =>
      rw [hbound] at hmatch
      exact (hmatch bound rfl).mergeFavouring
    case h_2 => exact List.forall_mem_singleton.2 (hv.part assigned (by simp [Expr.parts]))
    case h_3 cause hcause => rwa [hcause] at hmatch
  | _ => exact id

namespace BuiltIn

variable {a b : Expr}

theorem asBool_named (ha : a.NamedBy word) : CauseNamed word (asBool a) := by
  cases a with
  | bool => exact trivial
  | _ => exact List.forall_mem_singleton.2 ha

theorem asNumber_named (ha : a.NamedBy word) : CauseNamed word (asNumber a) := by
  cases a with
  | number => exact trivial
  | _ => exact List.forall_mem_singleton.2 ha

theorem asChar_named (ha : a.NamedBy word) : CauseNamed word (asChar a) := by
  cases a with
  | char => exact trivial
  | _ => exact List.forall_mem_singleton.2 ha

theorem cause_ofNumeric_named (e : NumericError) : (Cause.ofNumeric e).NamedBy word := by
  cases e <;> exact List.forall_mem_nil _

theorem ofNumeric_named (result : Except NumericError Number) :
    CauseNamed word (ofNumeric result) := by
  cases result with
  | error e => exact cause_ofNumeric_named e
  | ok n => exact trivial

theorem unary_named (operation : Number → Except NumericError Number) (ha : a.NamedBy word) :
    CauseNamed word (unary operation a) :=
  (asNumber_named ha).bind fun _ _ => ofNumeric_named _

theorem floatFunction_named (f : Float → Float) (ha : a.NamedBy word) :
    CauseNamed word (floatFunction f a) :=
  (asNumber_named ha).bind fun _ _ => trivial

theorem toNumberValue_named (ha : a.NamedBy word) : CauseNamed word (toNumberValue a) := by
  rw [toNumberValue.eq_def]
  split
  · exact trivial
  · split
    · exact trivial
    · exact List.forall_mem_singleton.2 ha

theorem toCharacterValue_named (ha : a.NamedBy word) : CauseNamed word (toCharacterValue a) := by
  rw [toCharacterValue.eq_def]
  split
  · split
    · exact trivial
    · exact List.forall_mem_singleton.2 ha
  · exact List.forall_mem_nil _
  · exact trivial
  · exact List.forall_mem_singleton.2 ha

theorem binary_named (operation : Number → Number → Except NumericError Number)
    (ha : a.NamedBy word) (hb : b.NamedBy word) : CauseNamed word (binary operation a b) :=
  (asNumber_named ha).bind fun _ _ => (asNumber_named hb).bind fun _ _ => ofNumeric_named _

theorem plus_named (ha : a.NamedBy word) (hb : b.NamedBy word) : CauseNamed word (plus a b) := by
  rw [plus.eq_def]
  split
  · exact trivial
  · exact binary_named _ ha hb

theorem ordered_named (accept : Ordering → Bool) (ha : a.NamedBy word) (hb : b.NamedBy word) :
    CauseNamed word (ordered accept a b) := by
  have horder : CauseNamed word (order a b) := by
    rw [order.eq_def]
    split
    · exact trivial
    · apply (asNumber_named ha).bind
      intro _ _
      exact (asNumber_named hb).bind fun _ _ => trivial
  exact horder.bind fun _ _ => trivial

mutual
/-- What cannot be compared are two parts at the same place. -/
theorem equal_named (a b : Expr) (ha : a.NamedBy word) (hb : b.NamedBy word) :
    CauseNamed word (equal a b) := by
  have hother : (Cause.notComparable a b).NamedBy word :=
    List.forall_mem_cons.2 ⟨ha, List.forall_mem_singleton.2 hb⟩
  match a with
  | .bool _ => cases b <;> first | exact trivial | exact hother
  | .char _ => cases b <;> first | exact trivial | exact hother
  | .number m =>
    cases b with
    | number n =>
      rw [equal]
      split
      · exact trivial
      · exact cause_ofNumeric_named _
    | _ => exact hother
  | .list xs =>
    cases b with
    | list ys =>
      rw [equal]
      split
      · exact trivial
      · exact equalItems_named xs ys ha.part hb.part
    | _ => exact hother
  | .cons .. | .wildcard | .name _ | .function _ | .assign .. | .closure _ | .block _ | .call ..
  | .apply .. | .deferred .. | .builtIn _ => exact hother
termination_by structural a

theorem equalItems_named (xs ys : List Expr) (hx : ∀ x ∈ xs, x.NamedBy word)
    (hy : ∀ y ∈ ys, y.NamedBy word) : CauseNamed word (equalItems xs ys) := by
  match xs, ys with
  | [], [] | [], _ :: _ | _ :: _, [] => exact trivial
  | x :: xs, y :: ys =>
    obtain ⟨hfirst, hrest⟩ := List.forall_mem_cons.1 hx
    obtain ⟨hfirst', hrest'⟩ := List.forall_mem_cons.1 hy
    have hequal := equal_named x y hfirst hfirst'
    rw [equalItems]
    split
    · exact equalItems_named xs ys hrest hrest'
    · exact hequal
termination_by structural xs
end

theorem result_cause_named (b : BuiltIn) {args : List Expr} (h : ∀ v ∈ args, v.NamedBy word) :
    CauseNamed word (b.result args) := by
  have hone {x : Expr} (hargs : args = [x]) : x.NamedBy word := h x (by simp [hargs])
  have hleft {x y : Expr} (hargs : args = [x, y]) : x.NamedBy word := h x (by simp [hargs])
  have hright {x y : Expr} (hargs : args = [x, y]) : y.NamedBy word := h y (by simp [hargs])
  rw [result.eq_def]
  split
  · exact plus_named (hleft rfl) (hright rfl)
  · exact unary_named _ (hone rfl)
  iterate 7 exact binary_named _ (hleft rfl) (hright rfl)
  iterate 4 exact ordered_named _ (hleft rfl) (hright rfl)
  iterate 2 exact (equal_named _ _ (hleft rfl) (hright rfl)).map _
  · exact (asBool_named (hone rfl)).map _
  · exact toNumberValue_named (hone rfl)
  · exact trivial
  · exact toCharacterValue_named (hone rfl)
  · exact (asChar_named (hone rfl)).bind fun _ _ => trivial
  · exact (asNumber_named (hone rfl)).map _
  iterate 9 exact floatFunction_named _ (hone rfl)
  · exact h

theorem result_named (b : BuiltIn) {args : List Expr} (h : ∀ v ∈ args, v.NamedBy word) :
    ResultNamed word (NamedBy word) (b.result args) := by
  have hcause := result_cause_named b h
  cases hr : b.result args with
  | ok v => exact NamedBy.invariant.result_value h hr
  | error cause => rwa [hr] at hcause

theorem takeLine_named (streams : Streams) :
    OutcomeNamed word (NamedBy word) (takeLine streams) := by
  rw [takeLine]
  split
  · exact .text []
  · exact .text _
  · exact .fail rfl

theorem meaning_named (b : BuiltIn) {args : List Expr} (h : ∀ v ∈ args, v.NamedBy word)
    (streams : Streams) : OutcomeNamed word (NamedBy word) (b.meaning args streams) := by
  rw [meaning.eq_def]
  split
  · exact takeLine_named _
  · exact takeLine_named _
  · exact h _ List.mem_cons_self
  · exact h _ List.mem_cons_self
  · exact .ofExcept (result_named b h) streams

end BuiltIn

/-! ### The rules -/

/-- The reduction adds no names to those of the expression and the context. -/
def Reduction.Named (word : String → Prop) (eval : Reduction) : Prop :=
  ∀ e context streams, e.NamedBy word → context.All (NamedBy word) →
    OutcomeNamed word (NamedBy word) (eval e context streams)

namespace Reduction.Named

variable {eval body : Reduction} (he : eval.Named word) {context : Bindings}

section Parts

variable (hc : context.All (NamedBy word))

include he hc

theorem all_named {es : List Expr} (h : ∀ e ∈ es, e.NamedBy word) (streams : Streams) :
    OutcomeNamed word (fun vs => ∀ v ∈ vs, v.NamedBy word)
      (Reduction.all eval es context streams) := by
  induction es generalizing streams with
  | nil => exact List.forall_mem_nil _
  | cons e rest ih =>
    obtain ⟨hfirst, hrest⟩ := List.forall_mem_cons.1 h
    apply (he e context streams hfirst hc).andThen
    intro v streams hv
    apply (ih hrest streams).andThen
    intro vs streams hvs
    exact List.forall_mem_cons.2 ⟨hv, hvs⟩

theorem truth_named {e : Expr} (h : e.NamedBy word) (streams : Streams) :
    OutcomeNamed word (fun _ => True) (Reduction.truth eval e context streams) :=
  (he e context streams h hc).andThen fun _ streams hv =>
    .ofExcept (BuiltIn.asBool_named hv) streams

theorem callBuiltIn_named (b : BuiltIn) {args : List Expr} (h : ∀ e ∈ args, e.NamedBy word)
    (streams : Streams) :
    OutcomeNamed word (NamedBy word) (Reduction.callBuiltIn eval b args context streams) := by
  have hbool (holds : Bool) : (Expr.bool holds).NamedBy word := .leaf rfl rfl rfl
  have hsecond {e : Expr} (h : e.NamedBy word) (streams : Streams) :
      OutcomeNamed word (NamedBy word) ((Reduction.truth eval e context streams).andThen
        fun holds streams => .value (.bool holds) streams) :=
    (truth_named he hc h streams).andThen fun holds _ _ => hbool holds
  rw [callBuiltIn.eq_def]
  split
  case isTrue => exact .fail h
  case isFalse haccepts =>
    split
    case h_1 left right =>
      apply (truth_named he hc (h left (by simp)) streams).andThen
      intro holds streams _
      cases holds with
      | true => exact hsecond (h right (by simp)) streams
      | false => exact hbool false
    case h_2 left right =>
      apply (truth_named he hc (h left (by simp)) streams).andThen
      intro holds streams _
      cases holds with
      | true => exact hbool true
      | false => exact hsecond (h right (by simp)) streams
    case h_3 =>
      apply (all_named he hc h streams).andThen
      intro values streams hvalues
      exact b.meaning_named hvalues streams

theorem arguments_named (closure : Closure Expr) {args : List Expr}
    (h : ∀ e ∈ args, e.NamedBy word) (streams : Streams) :
    OutcomeNamed word (fun vs => ∀ v ∈ vs, v.NamedBy word)
      (Reduction.arguments eval closure args context streams) := by
  rw [Reduction.arguments]
  split
  · exact all_named he hc h streams
  · exact .fail h

end Parts

section Calls

variable (hb : body.Named word)

include he hb

theorem firstMatch_named {closure : Closure Expr} (hclosure : (Expr.closure closure).NamedBy word)
    {args : List Expr} (hargs : ∀ v ∈ args, v.NamedBy word) {clauses : List (Clause Expr)}
    (hclauses : ∀ clause ∈ clauses, ∀ part ∈ clause.parts, part.NamedBy word)
    (streams : Streams) :
    OutcomeNamed word (NamedBy word)
      (Reduction.firstMatch eval body closure args clauses streams) := by
  induction clauses generalizing streams with
  | nil => exact .fail hargs
  | cons clause rest ih =>
    obtain ⟨hclause, hrest⟩ := List.forall_mem_cons.1 hclauses
    obtain ⟨hpatterns, hguard⟩ := List.forall_mem_append.1 hclause
    obtain ⟨hguard, hbody⟩ := List.forall_mem_cons.1 hguard
    have hbody := List.forall_mem_singleton.1 hbody
    have hmatch := Expr.matchParameters_named hpatterns args
    rw [Reduction.firstMatch]
    split
    case h_1 cause hcause =>
      rw [hcause] at hmatch
      exact .fail hmatch
    case h_2 => exact ih hrest streams
    case h_3 parameters hparameters =>
      have hcontext := NamedBy.invariant.bodyContext_all hclosure
        (NamedBy.invariant.matchParameters_all hargs hparameters)
      dsimp only
      split
      · apply (he _ _ streams hguard hcontext).andThen
        intro verdict streams hverdict
        split
        · exact hb _ _ streams hbody hcontext
        · exact ih hrest streams
        · exact .fail (List.forall_mem_singleton.2 hverdict)
      · exact hb _ _ streams hbody hcontext

theorem dispatch_named {closure : Closure Expr} (hclosure : (Expr.closure closure).NamedBy word)
    {args : List Expr} (hargs : ∀ v ∈ args, v.NamedBy word) (streams : Streams) :
    OutcomeNamed word (NamedBy word) (Reduction.dispatch eval body closure args streams) :=
  firstMatch_named he hb hclosure hargs (NamedBy.closure_iff.1 hclosure).2.1 streams

variable (hc : context.All (NamedBy word))

include hc

theorem callTarget_named {target : Expr} (ht : target.NamedBy word) {args : List Expr}
    (hargs : ∀ e ∈ args, e.NamedBy word) (streams : Streams) :
    OutcomeNamed word (NamedBy word)
      (Reduction.callTarget eval body target args context streams) := by
  cases target with
  | builtIn b => exact callBuiltIn_named he hc b hargs streams
  | closure closure =>
    apply (arguments_named he hc closure hargs streams).andThen
    intro values streams hvalues
    exact dispatch_named he hb ht hvalues streams
  | _ => exact .fail (List.forall_mem_singleton.2 ht)

omit hb in
theorem deferTarget_named {target : Expr} (ht : target.NamedBy word) {args : List Expr}
    (hargs : ∀ e ∈ args, e.NamedBy word) (streams : Streams) :
    OutcomeNamed word (NamedBy word)
      (Reduction.deferTarget eval target args context streams) := by
  cases target with
  | builtIn b => exact callBuiltIn_named he hc b hargs streams
  | closure closure =>
    apply (arguments_named he hc closure hargs streams).andThen
    intro values streams hvalues
    exact .of_parts rfl rfl (List.forall_mem_cons.2 ⟨ht, hvalues⟩)
  | _ => exact .fail (List.forall_mem_singleton.2 ht)

omit hc in
theorem block_named {statements : List Expr} (h : ∀ s ∈ statements, s.NamedBy word)
    (hc : context.All (NamedBy word)) (declared : List String) (streams : Streams) :
    OutcomeNamed word (NamedBy word)
      (Reduction.block eval body declared statements context streams) := by
  induction statements generalizing declared context streams with
  | nil => exact .fail (List.forall_mem_nil _)
  | cons statement rest ih =>
    obtain ⟨hfirst, hrest⟩ := List.forall_mem_cons.1 h
    have hentered := Invariant.shadow_all hc declared statement
    cases rest with
    | nil => exact hb statement _ streams hfirst hentered
    | cons second rest =>
      apply (he statement _ streams hfirst hentered).andThen
      intro v streams hv
      have hinstall := install_named (shadow declared statement context).2 hv
      split
      case h_1 next hnext =>
        exact ih hrest (NamedBy.invariant.install_all hv hentered hnext) _ streams
      case h_2 cause hcause =>
        rw [hcause] at hinstall
        exact .fail hinstall

end Calls

section Steps

variable (hb : body.Named word)

include he hb

theorem step_named {resume : Expr → Streams → Outcome Expr}
    (hr : ∀ v streams, v.NamedBy word → OutcomeNamed word (NamedBy word) (resume v streams)) :
    Reduction.Named word (Reduction.step eval body resume) := by
  intro e context streams h hc
  have hcall {target : Expr} (ht : target.NamedBy word) {args : List Expr}
      (hargs : ∀ e ∈ args, e.NamedBy word) (streams : Streams) :
      OutcomeNamed word (NamedBy word)
        ((Reduction.callTarget eval body target args context streams).andThen resume) :=
    (callTarget_named he hb hc ht hargs streams).andThen hr
  cases e with
  | bool | number | char | wildcard | closure | builtIn => exact h
  | list items =>
    rw [Reduction.step]
    split
    · exact h
    · apply (all_named he hc h.part streams).andThen
      intro _ _ hvalues
      exact .list hvalues
  | cons heads tail =>
    have hheads : ∀ e ∈ heads, e.NamedBy word := fun e hmem =>
      h.part e (List.mem_append_left _ hmem)
    apply (all_named he hc hheads streams).andThen
    intro values streams hvalues
    apply (he tail context streams (h.part _ (by simp [Expr.parts])) hc).andThen
    intro v streams hv
    cases v with
    | list items => exact .list (List.forall_mem_append.2 ⟨hvalues, hv.part⟩)
    | _ => exact .fail (List.forall_mem_singleton.2 hv)
  | name n =>
    rw [Reduction.step]
    split
    case h_1 v hv => exact hc.get? hv
    case h_2 => exact .fail (h.ownName n rfl)
  | function clause => exact .ofExcept (declare_named h hc) streams
  | assign target value =>
    apply (he value context streams (h.part _ (by simp [Expr.parts])) hc).andThen
    intro v streams hv
    exact NamedBy.invariant.assign h hv
  | block statements => exact block_named he he h.part hc [] streams
  | call callee args =>
    rw [Reduction.step]
    split
    case h_1 target ht => exact hcall (hc.get? ht) h.part streams
    case h_2 => exact .fail (h.ownName callee rfl)
  | apply target args =>
    obtain ⟨htarget, hargs⟩ := List.forall_mem_cons.1 h.part
    apply (he target context streams htarget hc).andThen
    intro v streams hv
    split
    · exact hcall hv hargs streams
    · exact .fail (List.forall_mem_singleton.2 hv)
  | deferred target args => exact hr _ streams h

theorem tail_named : Reduction.Named word (Reduction.tail eval body) := by
  intro e context streams h hc
  cases e with
  | call callee args =>
    rw [Reduction.tail]
    apply Song.OutcomeNamed.inside h
    split
    case h_1 target ht => exact deferTarget_named he hc (hc.get? ht) h.part streams
    case h_2 => exact .fail (h.ownName callee rfl)
  | apply target args =>
    obtain ⟨htarget, hargs⟩ := List.forall_mem_cons.1 h.part
    apply OutcomeNamed.inside h
    apply (he target context streams htarget hc).andThen
    intro v streams hv
    exact deferTarget_named he hc hv hargs streams
  | block statements => exact .inside h (block_named he hb h.part hc [] streams)
  | _ => exact he _ context streams h hc

end Steps

end Reduction.Named

/-- Within any number of steps no names are added. -/
theorem evaluation_named (word : String → Prop) (limit : Nat) :
    Reduction.Named word (evaluate limit) ∧ Reduction.Named word (evaluateTail limit) ∧
      ∀ v streams, v.NamedBy word →
        OutcomeNamed word (NamedBy word) (resume limit v streams) := by
  induction limit with
  | zero => exact ⟨fun _ _ _ _ _ => trivial, fun _ _ _ _ _ => trivial, fun _ _ _ => trivial⟩
  | succ limit ih =>
    obtain ⟨heval, htail, hresume⟩ := ih
    refine ⟨?_, heval.tail_named htail, ?_⟩
    · intro e context streams h hc
      exact .located h (heval.step_named htail hresume e context streams h hc)
    · intro v streams h
      cases v with
      | deferred target args =>
        obtain ⟨htarget, hargs⟩ := List.forall_mem_cons.1 h.part
        cases target with
        | closure closure =>
          rw [resume_deferred]
          exact (heval.dispatch_named htail htarget hargs streams).andThen hresume
        | _ => exact .fail (List.forall_mem_singleton.2 htarget)
      | _ => exact h

/-- Evaluation adds no names to those of the expression and the context. -/
theorem evaluate_named {e : Expr} {context : Bindings} (he : e.NamedBy word)
    (hc : context.All (NamedBy word)) (limit : Nat) (streams : Streams) :
    OutcomeNamed word (NamedBy word) (evaluate limit e context streams) :=
  (evaluation_named word limit).1 e context streams he hc

/-- Executing a statement adds no names, neither to the values that are bound nor to those that
they are bound to. -/
theorem execute_named {e : Expr} {context : Bindings} (he : e.NamedBy word)
    (hc : context.All (NamedBy word)) (limit : Nat) (streams : Streams) :
    OutcomeNamed word (fun result : Expr × Bindings => result.1.NamedBy word ∧
        result.2.All (NamedBy word) ∧ (context.Names word → result.2.Names word))
      (execute limit e context streams) := by
  apply (evaluate_named he hc limit streams).andThen
  intro v streams hv
  refine .ofExcept ?_ streams
  have hinstall := install_named context hv
  cases hnext : install v context with
  | error cause => rwa [hnext] at hinstall
  | ok next =>
    rw [hnext] at hinstall
    exact ⟨hv, NamedBy.invariant.install_all hv hc hnext, hinstall⟩

end Song
