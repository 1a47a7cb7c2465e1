import Song.Proofs.Expr.Everywhere
import Song.Proofs.Grammar.Grammatical
import Song.Proofs.Token.Spelling
import Song.Expr.Printer

/-!
# Expressions as tokens

The tokens that the text of an expression spells. They are laid out as the text
is: operators between or before their operands, and operands that are written
with an operator between their operands in parentheses.
-/
namespace Song

def calleeToken (name : String) : Token :=
  match Operator.all.find? fun o => o.symbol = name with
  | some o => .operator o
  | none => .identifier name

theorem IsIdentifier.ne_symbol {name : String} (h : IsIdentifier name) (o : Operator) :
    o.symbol ≠ name := by
  rintro rfl
  obtain ⟨hword, c, rest, hname, hc, -⟩ := h
  cases o <;> cases hname <;> cases hc <;> cases hword

theorem calleeToken_identifier {name : String} (h : IsIdentifier name) :
    calleeToken name = .identifier name := by
  have hnone : Operator.all.find? (fun o => o.symbol = name) = none := by
    rw [List.find?_eq_none]
    intro o _
    simpa using h.ne_symbol o
  rw [calleeToken, hnone]

theorem calleeToken_symbol (o : Operator) : calleeToken o.symbol = .operator o := by
  cases o <;> rfl

theorem spells_callee {name : String} (h : IsCallee name) :
    Spells name.toList [calleeToken name] := by
  rcases h with h | ⟨o, rfl⟩
  · rw [calleeToken_identifier h]
    exact .identifier h
  · rw [calleeToken_symbol]
    exact .operator o

namespace Expr

def separatedTokens (words : List (List Token)) : List Token :=
  [Token.comma].intercalate words

def enclosedTokens (words : List Token) : List Token :=
  .leftParen :: (words ++ [.rightParen])

def asOperandTokens (operand : Expr) (words : List Token) : List Token :=
  if operand.isInfixCall then enclosedTokens words else words

/-- Whether a call of one argument is written with the name before the argument. -/
def isPrefixName (name : String) : Bool :=
  name = "-" || name = "Not"

def callTokens (callee : String) (args : List Expr) (words : List (List Token)) : List Token :=
  match args, words with
  | [lhs, rhs], [left, right] =>
    if isInfixName callee then
      asOperandTokens lhs left ++ calleeToken callee :: asOperandTokens rhs right
    else calleeToken callee :: enclosedTokens (separatedTokens words)
  | [operand], [text] =>
    if isPrefixName callee then calleeToken callee :: asOperandTokens operand text
    else calleeToken callee :: enclosedTokens (separatedTokens words)
  | _, _ => calleeToken callee :: enclosedTokens (separatedTokens words)

def listTokens (items : List Expr) (words : List (List Token)) : List Token :=
  match characters? items with
  | some (c :: cs) => [.text (c :: cs)]
  | _ => .leftBracket :: (separatedTokens words ++ [.rightBracket])

/-- The tokens of a guard, given those of its condition; the guard `true` has none. -/
def guardTokens (guard : Expr) (words : List Token) : List Token :=
  if guard.isGuard then .whenWord :: words else []

mutual
/-- The tokens of an expression. Closures and built-in functions have none. -/
def tokens (e : Expr) : List Token :=
  match e with
  | bool b => [.bool b]
  | number (.int i) => intTokens i
  | number (.float x) => [.float x]
  | char c => [.char c]
  | list items => listTokens items (itemTokens items)
  | cons heads tail =>
    .leftBracket :: (separatedTokens (itemTokens heads) ++ .bar :: (tokens tail ++ [.rightBracket]))
  | wildcard => [.underscore]
  | name n => [.identifier n]
  | function clause => clauseTokens clause
  | assign target value => tokens target ++ .equals :: tokens value
  | block statements => .doWord :: (separatedTokens (itemTokens statements) ++ [.endWord])
  | call callee args => callTokens callee args (itemTokens args)
  | apply target args | deferred target args =>
    enclosedTokens (tokens target) ++ enclosedTokens (separatedTokens (itemTokens args))
  | closure _ | builtIn _ => []
termination_by structural e

def itemTokens (items : List Expr) : List (List Token) :=
  match items with
  | [] => []
  | item :: rest => tokens item :: itemTokens rest
termination_by structural items

def clauseTokens (clause : Clause Expr) : List Token :=
  match clause with
  | ⟨label, patterns, guard, body⟩ =>
    (label.map calleeToken).getD .fnWord ::
      (enclosedTokens (separatedTokens (itemTokens patterns)) ++
        (guardTokens guard (tokens guard) ++ .equals :: tokens body))
termination_by structural clause
end

def IsSpelt (e : Expr) : Prop :=
  Spells e.render.toList e.tokens

/-- Text between parentheses, before a spelling. -/
theorem spells_enclosed {text more : List Char} {words later : List Token}
    (ht : Spells text words) (hm : Spells more later) :
    Spells ('(' :: (text ++ ')' :: more)) (enclosedTokens words ++ later) := by
  rw [enclosedTokens, List.cons_append, List.append_assoc, List.singleton_append]
  apply Spells.sign (fun _ => rfl)
  exact ht.append (.sign (fun _ => rfl) hm) (.cons rfl _)

theorem spells_separated {items : List Expr} (h : ∀ e ∈ items, e.IsSpelt) :
    Spells (separated (renderItems items)).toList (separatedTokens (itemTokens items)) := by
  rw [separated, separatedTokens]
  induction items with
  | nil => exact .nil
  | cons e rest ih =>
    obtain ⟨he, hrest⟩ := List.forall_mem_cons.1 h
    cases rest with
    | nil =>
      rw [renderItems, itemTokens, renderItems, itemTokens, String.intercalate_singleton,
        List.intercalate_singleton]
      exact he
    | cons next more =>
      have hmore := ih hrest
      rw [renderItems, itemTokens] at hmore ⊢
      rw [renderItems, itemTokens, String.intercalate_cons_cons, List.intercalate_cons_cons]
      simp only [String.toList_append, String.reduceToList, List.append_assoc, List.cons_append,
        List.nil_append]
      exact he.append (.sign (fun _ => rfl) (.blank hmore)) (.cons rfl _)

theorem spells_asOperand {e : Expr} (h : e.IsSpelt) :
    Spells (asOperand e e.render).toList (asOperandTokens e e.tokens) := by
  rw [asOperand, asOperandTokens]
  split
  · simp only [String.toList_append, String.reduceToList, List.cons_append, List.nil_append]
    rw [← List.append_nil (enclosedTokens _)]
    exact spells_enclosed h .nil
  · exact h

/-- A name with arguments in parentheses. -/
theorem spells_named {name : String} {t : Token} (hn : Spells name.toList [t])
    {args : List Expr} (h : ∀ e ∈ args, e.IsSpelt) {more : List Char} {later : List Token}
    (hm : Spells more later) :
    Spells (name.toList ++ '(' :: ((separated (renderItems args)).toList ++ ')' :: more))
      (t :: (enclosedTokens (separatedTokens (itemTokens args)) ++ later)) :=
  hn.append (spells_enclosed (spells_separated h) hm) (.cons rfl _)

theorem isSpelt_call {callee : String} {args : List Expr} (hc : IsCallee callee)
    (h : ∀ e ∈ args, e.IsSpelt) : (call callee args).IsSpelt := by
  have hnamed : Spells (callee ++ "(" ++ separated (renderItems args) ++ ")").toList
      (calleeToken callee :: enclosedTokens (separatedTokens (itemTokens args))) := by
    simp only [String.toList_append, String.reduceToList, List.append_assoc, List.cons_append,
      List.nil_append]
    rw [← List.append_nil (enclosedTokens _)]
    exact spells_named (spells_callee hc) h .nil
  rw [IsSpelt, render, tokens]
  match args with
  | [] => exact hnamed
  | [operand] =>
    have hoperand := spells_asOperand (h operand (by simp))
    rw [renderItems, renderItems, itemTokens, itemTokens] at *
    rw [renderCall, callTokens]
    by_cases hminus : callee = "-"
    · subst hminus
      rw [if_pos rfl, if_pos (show isPrefixName "-" = true from rfl), String.toList_append]
      exact .sign (fun _ => rfl) hoperand
    by_cases hnot : callee = "Not"
    · subst hnot
      rw [if_neg hminus, if_pos rfl, if_pos (show isPrefixName "Not" = true from rfl),
        String.toList_append]
      exact (Spells.operator .not).append (.blank hoperand) (.cons rfl _)
    · rw [if_neg hminus, if_neg hnot, isPrefixName, decide_eq_false hminus, decide_eq_false hnot]
      exact hnamed
  | [lhs, rhs] =>
    have hleft := spells_asOperand (h lhs (by simp))
    have hright := spells_asOperand (h rhs (by simp))
    rw [renderItems, renderItems, renderItems, itemTokens, itemTokens, itemTokens] at *
    rw [renderCall, callTokens]
    split
    · simp only [String.toList_append, String.reduceToList, List.append_assoc, List.cons_append,
        List.nil_append]
      refine hleft.append ?_ (.cons rfl _)
      apply Spells.blank
      exact (spells_callee hc).append (.blank hright) (.cons rfl _)
    · exact hnamed
  | _ :: _ :: _ :: _ => exact hnamed

theorem isSpelt_list {items : List Expr} (h : ∀ e ∈ items, e.IsSpelt) : (list items).IsSpelt := by
  have hitems : Spells ("[" ++ separated (renderItems items) ++ "]").toList
      (.leftBracket :: (separatedTokens (itemTokens items) ++ [.rightBracket])) := by
    simp only [String.toList_append, String.reduceToList, List.cons_append, List.nil_append]
    apply Spells.sign (fun _ => rfl)
    exact (spells_separated h).append (.sign (fun _ => rfl) .nil) (.cons rfl _)
  rw [IsSpelt, render, tokens, renderList, listTokens]
  match characters? items with
  | none | some [] => exact hitems
  | some (c :: cs) => exact .text (c :: cs)

/-- The guard of a clause with the text after it. -/
theorem spells_guard {guard : Expr} (hg : guard.IsSpelt) {more : List Char} {later : List Token}
    (hm : Spells more later) (hb : Breaks more) :
    Spells ((if guard.isGuard then " When " ++ guard.render else "").toList ++ more)
      (guardTokens guard guard.tokens ++ later) := by
  have hwhen : Spells "When".toList [.whenWord] := .keyword rfl rfl rfl rfl
  rw [guardTokens]
  split
  · simp only [String.toList_append, String.reduceToList, List.cons_append, List.nil_append]
    apply Spells.blank
    exact hwhen.append (.blank (hg.append hm hb)) (.cons rfl _)
  · exact hm

theorem isSpelt_function {label : Option String} {patterns : List Expr} {guard body : Expr}
    (hn : ∀ name ∈ label, IsCallee name) (hp : ∀ p ∈ patterns, p.IsSpelt) (hg : guard.IsSpelt)
    (hb : body.IsSpelt) : (function ⟨label, patterns, guard, body⟩).IsSpelt := by
  have hlabel : Spells (label.getD "Fn").toList [(label.map calleeToken).getD .fnWord] := by
    cases label with
    | none => exact .keyword rfl rfl rfl rfl
    | some name => exact spells_callee (hn name rfl)
  have hbody : Spells (' ' :: '=' :: ' ' :: body.render.toList) (.equals :: body.tokens) :=
    .blank (.sign (fun _ => rfl) (.blank hb))
  rw [IsSpelt, render, tokens, renderClause, clauseTokens]
  simp only [String.toList_append, String.reduceToList, List.append_assoc, List.cons_append,
    List.nil_append]
  exact spells_named hlabel hp (spells_guard hg hbody (.cons rfl _))

/-- The text of what the grammar gives spells its tokens, if no double is written in it. -/
theorem isSpelt_of_grammatical {role : Role} {e : Expr} (h : Grammatical role e)
    (hf : e.Everywhere fun e => e.isFloat = false) : e.IsSpelt := by
  induction h with
  | bool b => cases b <;> exact .keyword rfl rfl rfl rfl
  | int hi => exact .int hi
  | float x => cases hf.here
  | char c => exact .char c
  | wildcard => exact .word rfl rfl (List.forall_mem_nil _)
  | name hn => exact .identifier hn
  | list _ ih => exact isSpelt_list fun e he => ih e he (hf.part he)
  | cons _ _ _ ihh iht =>
    have hheads := spells_separated fun e he => ihh e he (hf.part (List.mem_append_left _ he))
    have htail := iht (hf.part (by simp [parts]))
    rw [IsSpelt, render, tokens]
    simp only [String.toList_append, String.reduceToList, List.append_assoc, List.cons_append,
      List.nil_append]
    apply Spells.sign (fun _ => rfl)
    refine hheads.append ?_ (.cons rfl _)
    apply Spells.sign (fun _ => rfl)
    exact htail.append (.sign (fun _ => rfl) .nil) (.cons rfl _)
  | block _ ih =>
    have hstatements := spells_separated fun e he => ih e he (hf.part he)
    rw [IsSpelt, render, tokens]
    simp only [String.toList_append, String.reduceToList, List.cons_append, List.nil_append]
    have hend : Spells "End".toList [.endWord] := .keyword rfl rfl rfl rfl
    have hdo : Spells "Do".toList [.doWord] := .keyword rfl rfl rfl rfl
    apply hdo.append _ (.cons rfl _)
    apply Spells.blank
    exact hstatements.append (.blank hend) (.cons rfl _)
  | call hc _ ih => exact isSpelt_call hc fun e he => ih e he (hf.part he)
  | apply _ _ iht ih =>
    have htarget := iht (hf.part List.mem_cons_self)
    have hargs := spells_separated fun e he => ih e he (hf.part (List.mem_cons_of_mem _ he))
    rw [IsSpelt, render, tokens]
    simp only [String.toList_append, String.reduceToList, List.append_assoc, List.cons_append,
      List.nil_append]
    rw [← List.append_nil (enclosedTokens (separatedTokens _))]
    exact spells_enclosed htarget (spells_enclosed hargs .nil)
  | expression _ ih => exact ih hf
  | assign _ _ _ _ iht ihv =>
    have htarget := iht (hf.part List.mem_cons_self)
    have hvalue := ihv (hf.part (by simp [parts]))
    rw [IsSpelt, render, tokens]
    simp only [String.toList_append, String.reduceToList, List.append_assoc, List.cons_append,
      List.nil_append]
    apply htarget.append _ (.cons rfl _)
    apply Spells.blank
    exact .sign (fun _ => rfl) (.blank hvalue)
  | lambda _ _ _ _ ihp ihg ihb =>
    have hpatterns := fun p hp => ihp p hp (hf.part (List.mem_append_left _ hp))
    have hguard := ihg (hf.part (by simp [parts, Clause.parts]))
    have hbody := ihb (hf.part (by simp [parts, Clause.parts]))
    exact isSpelt_function (by simp) hpatterns hguard hbody
  | function hn _ _ _ _ ihp ihg ihb =>
    have hpatterns := fun p hp => ihp p hp (hf.part (List.mem_append_left _ hp))
    have hguard := ihg (hf.part (by simp [parts, Clause.parts]))
    have hbody := ihb (hf.part (by simp [parts, Clause.parts]))
    exact isSpelt_function (by simpa using hn) hpatterns hguard hbody

end Expr
end Song
