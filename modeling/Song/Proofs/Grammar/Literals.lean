import Song.Proofs.Grammar.RoundTrip
import Song.Proofs.Value.Clauses

/-!
# Literal values in their written form

Truth values, integers, characters and lists of these are read back from their text and evaluate to
themselves. The one exception is the least integer: its text has a numeral after the minus that
does not fit in 64 bits, so that no text in which it stands can be read.
-/
namespace Song

open Decimal (isDigit)

/-- The lexer stops with the fault inside the text, whatever comes after it. -/
def Stumbles (text : List Char) (f : LexicalFault) : Prop :=
  ∀ rest, Breaks rest → lexed (text ++ rest) = .error f

namespace Stumbles

variable {text more : List Char} {words : List Token} {f : LexicalFault}

theorem append (h : Stumbles text f) (hb : Breaks more) : Stumbles (text ++ more) f := by
  intro rest hr
  rw [List.append_assoc]
  exact h _ (hb.append hr)

/-- The fault comes after a spelling. -/
theorem after (ht : Spells text words) (h : Stumbles more f) (hb : Breaks more) :
    Stumbles (text ++ more) f := by
  intro rest hr
  rw [List.append_assoc, ht _ (hb.append hr), h rest hr]
  rfl

/-- The fault comes after a sign that is a token by itself. -/
theorem sign {c : Char} {t : Token} (hc : ∀ rest, Lexeme.scan c rest = ⟨0, .token t⟩)
    (h : Stumbles text f) : Stumbles (c :: text) f := by
  intro rest hr
  rw [List.cons_append, lexed_cons, hc, List.drop_zero, h rest hr]
  rfl

theorem blank (h : Stumbles text f) : Stumbles (' ' :: text) f := by
  intro rest hr
  rw [List.cons_append, lexed_blank, h rest hr]

/-- A numeral that is too large. -/
theorem digits {c : Char} (hc : isDigit c = true) (hm : ∀ d ∈ more, isDigit d = true)
    (hn : Nat.pow 2 63 ≤ Decimal.natural (c :: more)) : Stumbles (c :: more) .intOverflow := by
  intro rest hr
  obtain ⟨htake, hdrop⟩ := takeWhile_append_of_breaks isDigit_of_isBreak hm hr
  have hnumber : Lexeme.number c (more ++ rest) = ⟨more.length, .fault .intOverflow⟩ := by
    rw [Lexeme.number, htake, hdrop, fractionPart_of_breaks hr]
    exact if_neg (Nat.not_lt.2 hn)
  rw [List.cons_append, lexed_cons, scan_digit hc, hnumber]
  rfl

/-- The numeral after the minus of the least integer is one too large. -/
theorem least : Stumbles (Number.renderInt Int64.minValue).toList .intOverflow := by
  have htext : (Number.renderInt Int64.minValue).toList =
      '-' :: '9' :: "223372036854775808".toList := by
    rw [Number.renderInt, String.toList_ofList]
    rfl
  rw [htext]
  exact .sign (fun _ => rfl) (.digits rfl (List.all_eq_true.1 rfl) (by decide))

end Stumbles

namespace Expr

/-- One of the items holds the fault, and those before it are spelt or hold it too. -/
theorem stumbles_separated {items : List Expr} {f : LexicalFault}
    (h : ∀ e ∈ items, e.IsSpelt ∨ Stumbles e.render.toList f)
    (hf : ∃ e ∈ items, Stumbles e.render.toList f) :
    Stumbles (separated (renderItems items)).toList f := by
  rw [separated]
  induction items with
  | nil => simp at hf
  | cons e rest ih =>
    obtain ⟨he, hrest⟩ := List.forall_mem_cons.1 h
    cases rest with
    | nil =>
      rw [renderItems, renderItems, String.intercalate_singleton]
      simpa using hf
    | cons next more =>
      have hlater := ih hrest
      rw [renderItems] at hlater ⊢
      rw [renderItems, String.intercalate_cons_cons]
      simp only [String.toList_append, String.reduceToList, List.append_assoc, List.cons_append,
        List.nil_append]
      by_cases hfirst : Stumbles e.render.toList f
      · exact hfirst.append (.cons rfl _)
      · have hspelt := he.resolve_right hfirst
        have hmore := hlater (by simp_all)
        exact .after hspelt (.sign (fun _ => rfl) (.blank hmore)) (.cons rfl _)

end Expr

/-- A value built from truth values, integers, characters and lists. -/
inductive Expr.IsLiteral : Expr → Prop
  | bool (b : Bool) : IsLiteral (.bool b)
  | int (i : Int64) : IsLiteral (.int i)
  | char (c : Char) : IsLiteral (.char c)
  | list {items : List Expr} (h : ∀ v ∈ items, IsLiteral v) : IsLiteral (.list items)

/-- The least integer is nowhere in the expression. -/
def Expr.AvoidsLeast (e : Expr) : Prop :=
  e.Everywhere (· ≠ .int Int64.minValue)

theorem Expr.AvoidsLeast.char (c : Char) : (Expr.char c).AvoidsLeast :=
  .intro nofun (List.forall_mem_nil _)

namespace Expr.IsLiteral

variable {v : Expr}

theorem isValue (h : v.IsLiteral) : v.IsValue fun _ => True := by
  induction h with
  | bool b => exact .bool b
  | int i => exact .number _
  | char c => exact .char c
  | list _ ih => exact .list ih

theorem evaluates (h : v.IsLiteral) (context : Bindings) (streams : Streams) :
    Evaluates v context streams (.value v streams) :=
  .of_eventually (by simp) (h.isValue.evaluate_eventually context streams)

theorem isUnambiguous (h : v.IsLiteral) : v.IsUnambiguous := by
  induction h with
  | bool | int | char => exact .intro rfl (List.forall_mem_nil _)
  | list _ ih => exact .intro rfl ih

theorem grammatical (h : v.IsLiteral) (hleast : v.AvoidsLeast) : Grammatical .expression v := by
  induction h with
  | bool b => exact .bool b
  | int i =>
    apply Grammatical.int
    rintro rfl
    exact hleast.here rfl
  | char c => exact .char c
  | list _ ih => exact .list fun v hv => ih v hv (hleast.part hv)

theorem isSpelt (h : v.IsLiteral) (hleast : v.AvoidsLeast) : v.IsSpelt :=
  isSpelt_of_grammatical (h.grammatical hleast) h.isUnambiguous.noFloat

theorem parseStatement_render (h : v.IsLiteral) (hleast : v.AvoidsLeast) :
    parseStatement v.render = .ok v :=
  Song.parseStatement_render (.expression (h.grammatical hleast)) h.isUnambiguous

/-- A list with the least integer somewhere in it has an item with it, and is no string. -/
theorem stumbles (h : v.IsLiteral) (hleast : ¬v.AvoidsLeast) :
    Stumbles v.render.toList .intOverflow := by
  induction h with
  | bool => exact absurd (.intro nofun (List.forall_mem_nil _)) hleast
  | char c => exact absurd (.char c) hleast
  | int i =>
    by_cases hi : i = Int64.minValue
    · rw [hi]
      exact .least
    · refine absurd ?_ hleast
      refine .intro ?_ (List.forall_mem_nil _)
      rintro ⟨⟩
      exact hi rfl
  | @list items hitems ih =>
    obtain ⟨item, hitem, hbad⟩ : ∃ item ∈ items, ¬item.AvoidsLeast := by
      by_contra! hall
      exact hleast (.intro nofun hall)
    have hinner := stumbles_separated
      (fun e he => (em e.AvoidsLeast).imp (hitems e he).isSpelt (ih e he))
      ⟨item, hitem, ih item hitem hbad⟩
    have hrender : (Expr.list items).render = "[" ++ separated (renderItems items) ++ "]" := by
      rw [render, renderList]
      split
      case h_1 c cs hchars =>
        rw [eq_map_of_characters? hchars] at hitem
        obtain ⟨c, -, rfl⟩ := List.mem_map.1 hitem
        exact absurd (.char c) hbad
      case h_2 => rfl
    rw [hrender]
    simp only [String.toList_append, String.reduceToList, List.cons_append, List.nil_append]
    exact .sign (fun _ => rfl) (hinner.append (.cons rfl _))

end Expr.IsLiteral

theorem parseStatement_of_stumbles {source : String} {f : LexicalFault}
    (h : Stumbles source.toList f) :
    ∃ span, parseStatement source = .error ⟨.lexical f, span⟩ := by
  have hlexed := h [] .nil
  rw [List.append_nil, lexed] at hlexed
  rw [parseStatement, Grammar.readAll]
  cases htokens : tokenize source.toList with
  | ok tokens =>
    rw [htokens] at hlexed
    cases hlexed
  | error e =>
    rw [htokens] at hlexed
    cases hlexed
    exact ⟨e.span, rfl⟩

/-- A literal value is read back from its text exactly if the least integer is nowhere in it, and
then it evaluates to itself wherever it stands. With the least integer in it, the text is refused
for a numeral that does not fit in 64 bits. -/
theorem parseStatement_render_literal_iff {v : Expr} (h : v.IsLiteral) :
    (parseStatement v.render = .ok v ↔ v.Everywhere (· ≠ .int Int64.minValue)) ∧
    (∀ s, parseStatement v.render = .ok s →
      ∀ context streams, Evaluates s context streams (.value v streams)) ∧
    (¬v.Everywhere (· ≠ .int Int64.minValue) →
      ∃ span, parseStatement v.render = .error ⟨.lexical .intOverflow, span⟩) := by
  have hrefused (hleast : ¬v.AvoidsLeast) :
      ∃ span, parseStatement v.render = .error ⟨.lexical .intOverflow, span⟩ :=
    parseStatement_of_stumbles (h.stumbles hleast)
  have hread {s : Expr} (hs : parseStatement v.render = .ok s) : v.AvoidsLeast := by
    by_contra hleast
    obtain ⟨span, hspan⟩ := hrefused hleast
    rw [hspan] at hs
    cases hs
  refine ⟨⟨hread, h.parseStatement_render⟩, ?_, hrefused⟩
  intro s hs context streams
  rw [h.parseStatement_render (hread hs)] at hs
  cases hs
  exact h.evaluates context streams

/-- The list `[-9223372036854775807, ['"', true, "a\n"], []]`. -/
def literalList : Expr :=
  .list [.int (-9223372036854775807), .list [.char '"', .bool true, .string "a\n"], .list []]

theorem parseStatement_render_literalList :
    literalList.IsLiteral ∧ parseStatement literalList.render = .ok literalList := by
  have hchars (text : List Char) : (Expr.text text).IsLiteral :=
    .list (List.forall_mem_map.2 fun c _ => .char c)
  have h : literalList.IsLiteral := by
    apply Expr.IsLiteral.list
    simp only [List.forall_mem_cons]
    refine ⟨.int _, ?_, .list (List.forall_mem_nil _), List.forall_mem_nil _⟩
    apply Expr.IsLiteral.list
    simp only [List.forall_mem_cons]
    exact ⟨.char _, .bool _, hchars _, List.forall_mem_nil _⟩
  refine ⟨h, ?_⟩
  apply (parseStatement_render_literal_iff h).1.2
  simp [literalList, Expr.everywhere_iff, Expr.parts, Expr.string, Expr.text, Expr.int]

/-- The text of the least integer is not read back. -/
theorem not_parseStatement_render_least :
    (Expr.int Int64.minValue).IsLiteral ∧
    (Expr.int Int64.minValue).render = "-9223372036854775808" ∧
    parseStatement (Expr.int Int64.minValue).render =
      .error ⟨.lexical .intOverflow, ⟨1, 20⟩⟩ := by
  refine ⟨.int _, ?_, ?_⟩
  · decide
  · rfl

end Song
