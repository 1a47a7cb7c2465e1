import Song.Proofs.Evaluation.Limit
import Song.Proofs.Unmentioned.Likeness

/-!
# Operations on alike values

Matching, declaring, installing and the built-in functions give alike results for
alike values: alike values, or failures with the same message.
-/
namespace Song

inductive AlikeResult {α : Type} (S : α → α → Prop) : Except Cause α → Except Cause α → Prop
  | ok {a b : α} (h : S a b) : AlikeResult S (.ok a) (.ok b)
  | error {f g : Cause} (h : f.message = g.message) : AlikeResult S (.error f) (.error g)

namespace AlikeResult

variable {α β : Type} {S : α → α → Prop} {T : β → β → Prop}

theorem bind {first second : Except Cause α} {next others : α → Except Cause β}
    (h : AlikeResult S first second) (hnext : ∀ a b, S a b → AlikeResult T (next a) (others b)) :
    AlikeResult T (first >>= next) (second >>= others) := by
  cases h with
  | ok h => exact hnext _ _ h
  | error h => exact .error h

theorem map {first second : Except Cause α} {f g : α → β} (h : AlikeResult S first second)
    (hf : ∀ a b, S a b → T (f a) (g b)) : AlikeResult T (first.map f) (second.map g) := by
  cases h with
  | ok h => exact .ok (hf _ _ h)
  | error h => exact .error h

/-- A first step with equal results. -/
theorem bind_eq {first second : Except Cause α} {next others : α → Except Cause β}
    (h : AlikeResult Eq first second) (hnext : ∀ a, AlikeResult T (next a) (others a)) :
    AlikeResult T (first >>= next) (second >>= others) :=
  h.bind fun a _ hab => hab ▸ hnext a

theorem refl {result : Except Cause α} (h : ∀ a, result = .ok a → S a a) :
    AlikeResult S result result := by
  cases result with
  | ok a => exact .ok (h a rfl)
  | error f => exact .error rfl

end AlikeResult

variable {z : String}

open Song.Expr (Alike)

theorem signatureMismatch_message_eq {xs ys : List Expr} (h : List.Forall₂ (Alike z) xs ys) :
    (Cause.signatureMismatch xs).message = (Cause.signatureMismatch ys).message :=
  congrArg (fun texts => "no clause matches (" ++ Expr.separated texts ++ ")")
    (Alike.renderItems_eq h)

/-- A cause that shows one value has the same message for an alike one. -/
theorem Expr.Alike.message_eq {v w : Expr} (h : Alike z v w) (cause : Expr → Cause) (said : String)
    (hc : ∀ v, (cause v).message = said ++ v.render) : (cause v).message = (cause w).message := by
  rw [hc, hc, h.render_eq]

/-- The bindings after a match: alike, and new only for the names of the pattern. -/
private def Grown (z : String) (names : List String) (bound : Bindings) (r s : Bindings) : Prop :=
  Context.AlikeOn z (fun _ => True) r s ∧ ∀ n, n ∉ names → r.get? n = bound.get? n

private theorem same_literal_eq {literal v w : Expr} (h : Alike z v w)
    (hl : literal.isAtom = true) : Expr.same literal v = Expr.same literal w := by
  cases h <;> cases literal <;> first | rfl | cases hl

private theorem Grown.trans {first second : List String} {bound inner r s : Bindings}
    (h : Grown z second inner r s) (hinner : ∀ n, n ∉ first → inner.get? n = bound.get? n) :
    Grown z (first ++ second) bound r s := by
  refine ⟨h.1, ?_⟩
  intro n hn
  rw [List.mem_append, not_or] at hn
  rw [h.2 n hn.2, hinner n hn.1]

private def onward (result : Except Cause (Option Bindings))
    (next : Bindings → Except Cause (Option Bindings)) : Except Cause (Option Bindings) :=
  match result with
  | .ok (some bound) => next bound
  | other => other

/-- Two matches one after the other, of patterns that share no name. -/
private theorem grown_andThen {first second : List String} {bound : Bindings}
    {r s : Except Cause (Option Bindings)} {next others : Bindings → Except Cause (Option Bindings)}
    (hn : (first ++ second).Nodup) (hfresh : ∀ n ∈ first ++ second, bound.get? n = none)
    (h : AlikeResult (Option.Rel (Grown z first bound)) r s)
    (hnext : ∀ inner outer, Context.AlikeOn z (fun _ => True) inner outer →
      (∀ n ∈ second, inner.get? n = none) →
      AlikeResult (Option.Rel (Grown z second inner)) (next inner) (others outer)) :
    AlikeResult (Option.Rel (Grown z (first ++ second) bound)) (onward r next)
      (onward s others) := by
  cases h with
  | error h => exact .error h
  | ok h =>
    cases h with
    | none => exact .ok .none
    | @some inner outer h =>
      have hinner : ∀ n ∈ second, inner.get? n = none := by
        intro n hmem
        rw [h.2 n fun hfirst => (List.nodup_append.1 hn).2.2 n hfirst n hmem rfl]
        exact hfresh n (List.mem_append_right _ hmem)
      have hlast := hnext inner outer h.1 hinner
      rw [onward, onward]
      generalize next inner = second, others outer = third at hlast
      cases hlast with
      | error h => exact .error h
      | ok hlast =>
        cases hlast with
        | none => exact .ok .none
        | some hlast => exact .ok (.some (hlast.trans h.2))

mutual
private theorem matchPattern_grown (pattern v w : Expr) (bound other : Bindings)
    (hp : Expr.nonPattern? pattern = none) (hn : pattern.boundNames.Nodup)
    (hfresh : ∀ n ∈ pattern.boundNames, bound.get? n = none) (hv : Alike z v w)
    (hb : Context.AlikeOn z (fun _ => True) bound other) :
    AlikeResult (Option.Rel (Grown z pattern.boundNames bound))
      (Expr.matchPattern pattern v bound) (Expr.matchPattern pattern w other) := by
  have hliteral {literal : Expr} (hl : literal.isAtom = true) :
      AlikeResult (Option.Rel (Grown z [] bound))
        (.ok (if Expr.same literal v then some bound else none))
        (.ok (if Expr.same literal w then some other else none)) := by
    rw [same_literal_eq hv hl]
    split
    · exact .ok (.some ⟨hb, fun _ _ => rfl⟩)
    · exact .ok .none
  match pattern with
  | .wildcard => exact .ok (.some ⟨hb, fun _ _ => rfl⟩)
  | .name n =>
    have hnew : bound.get? n = none := hfresh n (by simp [Expr.boundNames])
    rw [Expr.matchPattern, Expr.matchPattern, hnew, hb.get?_eq_none trivial hnew]
    refine .ok (.some ⟨hb.insert n hv, fun m hm => ?_⟩)
    rw [Context.get?_insert, if_neg]
    rintro rfl
    exact hm (by simp [Expr.boundNames])
  | .cons heads tail =>
    rw [Expr.nonPattern?, Option.or_eq_none_iff] at hp
    rw [Expr.boundNames] at hn hfresh ⊢
    rw [Expr.matchPattern, Expr.matchPattern]
    have hitems := hv.items?_rel
    generalize v.items? = first, w.items? = second at hitems
    cases hitems with
    | none => exact .ok .none
    | @some xs ys hitems =>
      simp only [List.length_take, hitems.length_eq]
      split
      · exact .ok .none
      · apply grown_andThen hn hfresh
        · exact matchItems_grown heads xs ys bound other hp.1 (List.nodup_append.1 hn).1
            (fun n hmem => hfresh n (List.mem_append_left _ hmem)) hitems hb
        · intro inner outer hinner hnew
          exact matchPattern_grown tail _ _ inner outer hp.2 (List.nodup_append.1 hn).2.1 hnew
            (Alike.list_iff.2 (List.forall₂_drop _ hitems)) hinner
  | .list patterns =>
    rw [Expr.nonPattern?] at hp
    rw [Expr.boundNames] at hn hfresh ⊢
    rw [Expr.matchPattern, Expr.matchPattern]
    have hitems := hv.items?_rel
    generalize v.items? = first, w.items? = second at hitems
    cases hitems with
    | none => exact .ok .none
    | @some xs ys hitems =>
      have hlength : sameLength patterns xs = sameLength patterns ys := by
        rw [Bool.eq_iff_iff, sameLength_iff, sameLength_iff, hitems.length_eq]
      simp only [hlength]
      split
      · exact matchItems_grown patterns xs ys bound other hp hn hfresh hitems hb
      · exact .ok .none
  | .number (.float x) => exact .error rfl
  | .number (.int i) => exact hliteral rfl
  | .bool _ | .char _ => exact hliteral rfl
  | .function _ | .assign .. | .closure _ | .block _ | .call .. | .apply .. | .deferred ..
  | .builtIn _ => cases hp
termination_by structural pattern

private theorem matchItems_grown (patterns xs ys : List Expr) (bound other : Bindings)
    (hp : Expr.nonPatternAmong? patterns = none) (hn : (Expr.boundNamesAmong patterns).Nodup)
    (hfresh : ∀ n ∈ Expr.boundNamesAmong patterns, bound.get? n = none)
    (hv : List.Forall₂ (Alike z) xs ys) (hb : Context.AlikeOn z (fun _ => True) bound other) :
    AlikeResult (Option.Rel (Grown z (Expr.boundNamesAmong patterns) bound))
      (Expr.matchItems patterns xs bound) (Expr.matchItems patterns ys other) := by
  match patterns with
  | [] => exact .ok (.some ⟨hb, fun _ _ => rfl⟩)
  | pattern :: patterns =>
    rw [Expr.nonPatternAmong?, Option.or_eq_none_iff] at hp
    rw [Expr.boundNamesAmong] at hn hfresh ⊢
    cases hv with
    | nil => exact .ok .none
    | @cons x y xs ys hfirst hrest =>
      rw [Expr.matchItems, Expr.matchItems]
      apply grown_andThen hn hfresh
      · exact matchPattern_grown pattern x y bound other hp.1 (List.nodup_append.1 hn).1
          (fun n hmem => hfresh n (List.mem_append_left _ hmem)) hfirst hb
      · intro inner outer hinner hnew
        exact matchItems_grown patterns xs ys inner outer hp.2 (List.nodup_append.1 hn).2.1 hnew
          hrest hinner
termination_by structural patterns
end

/-- The result of a match without the names that it is about. -/
private theorem AlikeResult.of_grown {names : List String} {bound : Bindings}
    {r s : Except Cause (Option Bindings)}
    (h : AlikeResult (Option.Rel (Grown z names bound)) r s) :
    AlikeResult (Option.Rel (Context.AlikeOn z fun _ => True)) r s := by
  cases h with
  | error h => exact .error h
  | ok h =>
    cases h with
    | none => exact .ok .none
    | some h => exact .ok (.some h.1)

/-- Parameters of a safe clause are bound to alike values. -/
theorem matchParameters_alike {clause : Clause Expr} (hs : clause.IsSafe z) {xs ys : List Expr}
    (h : List.Forall₂ (Alike z) xs ys) :
    AlikeResult (Option.Rel (Context.AlikeOn z fun _ => True))
      (Expr.matchParameters clause.patterns xs) (Expr.matchParameters clause.patterns ys) := by
  have hlength : sameLength clause.patterns xs = sameLength clause.patterns ys := by
    rw [Bool.eq_iff_iff, sameLength_iff, sameLength_iff, h.length_eq]
  rw [Expr.matchParameters, Expr.matchParameters, hlength]
  split
  · exact .of_grown (matchItems_grown clause.patterns xs ys .empty .empty hs.1.patterns_pattern
      hs.2.here.1 (fun _ _ => rfl) h .empty)
  · exact .ok .none

/-- The names of a target are bound to alike values. -/
theorem matchTarget_alike {target v w : Expr}
    (ht : Expr.nonPattern? target = none ∧ target.boundNames.Nodup ∨ v = w) (h : Alike z v w) :
    AlikeResult (Option.Rel (Context.AlikeOn z fun _ => True))
      (Expr.matchPattern target v .empty) (Expr.matchPattern target w .empty) := by
  rcases ht with ⟨hpattern, hlinear⟩ | rfl
  · exact .of_grown (matchPattern_grown target v w .empty .empty hpattern hlinear
      (fun _ _ => rfl) h .empty)
  · apply Song.AlikeResult.refl
    intro bound hbound
    cases bound with
    | none => exact .none
    | some bound =>
      have hlist (items : List Expr) : Alike z (.list items) (.list items) ↔
          ∀ v ∈ items, Alike z v v := by
        rw [Alike.list_iff, List.forall₂_same]
      exact .some (.of_all (Invariant.matchPattern_all hlist target v .empty h Context.all_empty
        hbound))

/-- A target binds only its own names. -/
theorem get?_of_matchTarget {target v w : Expr} {bound : Bindings} {n : String}
    (hp : Expr.nonPattern? target = none) (hlinear : target.boundNames.Nodup) (h : Alike z v w)
    (hb : Expr.matchPattern target v .empty = .ok (some bound)) (hn : n ∉ target.boundNames) :
    bound.get? n = none := by
  have hmatch := matchPattern_grown target v w .empty .empty hp hlinear (fun _ _ => rfl) h .empty
  rw [hb] at hmatch
  generalize Expr.matchPattern target w .empty = other at hmatch
  cases hmatch with
  | ok hmatch =>
    cases hmatch with
    | some hgrown => exact hgrown.2 n hn

theorem install_alike {v w : Expr} {names : String → Prop} {c d : Bindings} (hv : Alike z v w)
    (hc : Context.AlikeOn z names c d) :
    AlikeResult (Context.AlikeOn z names) (install v c) (install w d) := by
  cases hv with
  | bool | number | char | wildcard | builtIn | list => exact .ok hc
  | @closure name clauses captured other hsafe hbound h =>
    cases name with
    | none => exact .ok hc
    | some name => exact .ok (hc.insert name (.closure hsafe hbound h))
  | @assign target v w ht h =>
    have hmatch := matchTarget_alike ht h
    simp only [install]
    generalize Expr.matchPattern target v .empty = r, Expr.matchPattern target w .empty = s
      at hmatch
    cases hmatch with
    | error h => exact .error h
    | ok hmatch =>
      cases hmatch with
      | none =>
        have hargs : List.Forall₂ (Alike z) [v] [w] := .cons h .nil
        exact .error (signatureMismatch_message_eq hargs)
      | some hbound => exact .ok (hbound.mergeFavouring hc)

theorem Sees.of_name {clause : Clause Expr} {clauses : List (Clause Expr)} {f : String}
    (hmem : clause ∈ clauses) (hname : clause.name = some f) : Sees z clauses f := by
  by_cases hf : f = z
  · right
    refine ⟨clause, hmem, ?_⟩
    intro hlacks
    apply hlacks.here
    rw [Expr.ownName?, hname, hf]
  · exact Or.inl hf

/-- Declaring a safe clause in contexts that are alike on what it sees. If it mentions the name
`z`, a function that it joins must have captured alike bindings of it. -/
theorem declare_alike {clause : Clause Expr} {c d : Bindings} (hs : clause.IsSafe z)
    (hc : Context.AlikeOn z (Sees z [clause]) c d)
    (hjoins : ∀ f existing other, clause.name = some f → ¬(Expr.function clause).Lacks z →
      c.get? f = some (.closure existing) → d.get? f = some (.closure other) →
      Context.AlikeOn z (· = z) existing.captured other.captured) :
    AlikeResult (Alike z) (declare clause c) (declare clause d) := by
  have hsingle : ∀ k ∈ [clause], k.IsSafe z := by simpa using hs
  rw [declare, declare]
  split
  · exact .error rfl
  · split
    case h_1 => exact .ok (Alike.closure_iff.2 ⟨rfl, rfl, hsingle, hc⟩)
    case h_2 f hname =>
      have hfresh : AlikeResult (Alike z)
          (.ok (.closure (.ofClause (some f) clause (c.erase f))))
          (.ok (.closure (.ofClause (some f) clause (d.erase f)))) :=
        .ok (Alike.closure_iff.2 ⟨rfl, rfl, hsingle, hc.erase f⟩)
      have hrel := hc f (Sees.of_name (List.mem_singleton_self _) hname)
      have hjoin := hjoins f
      generalize c.get? f = first, d.get? f = second at hrel hjoin
      cases hrel with
      | none => exact hfresh
      | @some v w h =>
        cases v with
        | closure existing =>
          obtain ⟨other, rfl⟩ := h.exists_closure
          have hsame : existing.name = other.name := (Alike.closure_iff.1 h).1
          dsimp only
          rw [hsame]
          split
          · exact .ok (h.withClause hs fun hmentions =>
              hjoin existing other hname hmentions rfl rfl)
          · exact hfresh
        | _ => cases h <;> exact hfresh

theorem bodyContext_alike {c d : Closure Expr} {parameters others : Bindings}
    (h : Alike z (.closure c) (.closure d))
    (hp : Context.AlikeOn z (fun _ => True) parameters others) :
    Context.AlikeOn z (Sees z c.clauses) (c.bodyContext parameters) (d.bodyContext others) := by
  obtain ⟨hname, -, -, hcaptured⟩ := Alike.closure_iff.1 h
  rw [Closure.bodyContext, Closure.bodyContext, ← hname]
  apply hp.mergeFavouring
  split
  · exact hcaptured.insert _ h
  · exact hcaptured

namespace BuiltIn

variable {v w v' w' : Expr}

theorem asBool_alike (h : Alike z v w) : AlikeResult Eq (asBool v) (asBool w) := by
  have hmessage := h.message_eq Cause.notABoolean "not a boolean: " fun _ => rfl
  cases h with
  | bool b => exact .ok rfl
  | _ => exact .error hmessage

theorem asNumber_alike (h : Alike z v w) : AlikeResult Eq (asNumber v) (asNumber w) := by
  have hmessage := h.message_eq Cause.notANumber "not a number: " fun _ => rfl
  cases h with
  | number n => exact .ok rfl
  | _ => exact .error hmessage

theorem asChar_alike (h : Alike z v w) : AlikeResult Eq (asChar v) (asChar w) := by
  have hmessage := h.message_eq Cause.notACharacter "not a character: " fun _ => rfl
  cases h with
  | char c => exact .ok rfl
  | _ => exact .error hmessage

theorem ofNumeric_alike (result : Except NumericError Number) :
    AlikeResult (Alike z) (ofNumeric result) (ofNumeric result) := by
  cases result with
  | ok n => exact .ok (.number n)
  | error e => exact .error rfl

theorem binary_alike (operation : Number → Number → Except NumericError Number)
    (h : Alike z v w) (h' : Alike z v' w') :
    AlikeResult (Alike z) (binary operation v v') (binary operation w w') :=
  (asNumber_alike h).bind_eq fun m => (asNumber_alike h').bind_eq fun n =>
    ofNumeric_alike (operation m n)

theorem unary_alike (operation : Number → Except NumericError Number) (h : Alike z v w) :
    AlikeResult (Alike z) (unary operation v) (unary operation w) :=
  (asNumber_alike h).bind_eq fun n => ofNumeric_alike (operation n)

theorem floatFunction_alike (f : Float → Float) (h : Alike z v w) :
    AlikeResult (Alike z) (floatFunction f v) (floatFunction f w) :=
  (asNumber_alike h).bind_eq fun _ => .ok (.number _)

theorem plus_alike (h : Alike z v w) (h' : Alike z v' w') :
    AlikeResult (Alike z) (plus v v') (plus w w') := by
  have hbinary := binary_alike Number.add h h'
  cases h with
  | list hlength h =>
    cases h' with
    | list hlength' h' =>
      have hfirst := Alike.list_iff.1 (.list hlength h)
      have hsecond := Alike.list_iff.1 (.list hlength' h')
      apply AlikeResult.ok
      rw [Alike.list_iff]
      exact List.rel_append hfirst hsecond
    | _ => exact hbinary
  | _ => exact hbinary

theorem order_alike (h : Alike z v w) (h' : Alike z v' w') :
    AlikeResult Eq (order v v') (order w w') := by
  have hnumbers : AlikeResult Eq
      (asNumber v >>= fun m => asNumber v' >>= fun n => .ok (m.order n))
      (asNumber w >>= fun m => asNumber w' >>= fun n => .ok (m.order n)) :=
    (asNumber_alike h).bind_eq fun m => (asNumber_alike h').bind_eq fun n => .ok rfl
  cases h with
  | char c =>
    cases h' with
    | char d => exact .ok rfl
    | _ => exact hnumbers
  | _ => exact hnumbers

theorem ordered_alike (accept : Ordering → Bool) (h : Alike z v w) (h' : Alike z v' w') :
    AlikeResult (Alike z) (ordered accept v v') (ordered accept w w') :=
  (order_alike h h').bind_eq fun _ => .ok (.bool _)

theorem notComparable_message_eq (h : Alike z v w) (h' : Alike z v' w') :
    (Cause.notComparable v v').message = (Cause.notComparable w w').message := by
  have hmessage (a b : Expr) : (Cause.notComparable a b).message =
      "cannot compare " ++ a.render ++ " and " ++ b.render := rfl
  rw [hmessage, hmessage, h.render_eq, h'.render_eq]

mutual
theorem equal_alike (a b c d : Expr) (h : Alike z a b) (h' : Alike z c d) :
    AlikeResult Eq (equal a c) (equal b d) := by
  have hother := notComparable_message_eq h h'
  match a with
  | .list xs =>
    cases h with
    | @list _ ys hlength h =>
      cases h' with
      | @list us ws hlength' h' =>
        rw [equal, equal, hlength, hlength']
        split
        · exact .ok rfl
        · exact equalItems_alike xs ys us ws (Alike.list_iff.1 (.list hlength h))
            (Alike.list_iff.1 (.list hlength' h'))
      | _ => exact .error hother
  | .bool _ | .number _ | .char _ | .wildcard | .builtIn _ | .assign .. | .closure _ | .cons ..
  | .name _ | .function _ | .block _ | .call .. | .apply .. | .deferred .. =>
    cases h <;> cases h' <;> first | exact .error hother | exact .refl fun _ _ => rfl
termination_by structural a

theorem equalItems_alike (xs ys us ws : List Expr) (h : List.Forall₂ (Alike z) xs ys)
    (h' : List.Forall₂ (Alike z) us ws) :
    AlikeResult Eq (equalItems xs us) (equalItems ys ws) := by
  match xs with
  | [] =>
    cases h
    exact .ok rfl
  | x :: xs =>
    cases h with
    | @cons _ y _ ys hx hxs =>
      cases h' with
      | nil => exact .ok rfl
      | @cons u w us ws hu hus =>
        rw [equalItems, equalItems]
        have hfirst := equal_alike x y u w hx hu
        generalize equal x u = first, equal y w = second at hfirst
        cases hfirst with
        | error h => exact .error h
        | ok h =>
          subst h
          split
          · exact equalItems_alike xs ys us ws hxs hus
          · exact .refl fun _ _ => rfl
termination_by structural xs
end

theorem toNumberValue_alike (h : Alike z v w) :
    AlikeResult (Alike z) (toNumberValue v) (toNumberValue w) := by
  have hmessage := h.message_eq Cause.notANumber "not a number: " fun _ => rfl
  have htext := h.text?_eq
  cases h with
  | number n => exact .ok (.number n)
  | list =>
    simp only [toNumberValue, htext]
    split
    · exact .ok (.number _)
    · exact .error hmessage
  | _ => exact .error hmessage

theorem text_alike (chars : List Char) : Alike z (.text chars) (.text chars) := by
  apply Alike.list_iff.2
  rw [List.forall₂_same]
  intro v hv
  obtain ⟨c, -, rfl⟩ := List.mem_map.1 hv
  exact .char c

theorem toTextValue_alike (h : Alike z v w) : Alike z (toTextValue v) (toTextValue w) := by
  rw [toTextValue, toTextValue, ← h.text?_eq, ← h.render_eq]
  split
  · exact h
  · exact text_alike _

theorem toCharacterValue_alike (h : Alike z v w) :
    AlikeResult (Alike z) (toCharacterValue v) (toCharacterValue w) := by
  have hmessage := h.message_eq Cause.notANumber "not a number: " fun _ => rfl
  cases h with
  | number n =>
    cases n with
    | int i =>
      simp only [toCharacterValue]
      split
      · exact .ok (.char _)
      · exact .error rfl
    | float x => exact .error rfl
  | char c => exact .ok (.char c)
  | _ => exact .error hmessage

theorem toScalarValue_alike (h : Alike z v w) :
    AlikeResult (Alike z) (toScalarValue v) (toScalarValue w) :=
  (asChar_alike h).bind_eq fun _ => .ok (.number _)

private theorem result_one (b : BuiltIn) (h : Alike z v w) :
    AlikeResult (Alike z) (b.result [v]) (b.result [w]) := by
  have hmismatch := signatureMismatch_message_eq (List.Forall₂.cons h .nil)
  cases b with
  | operator o =>
    cases o with
    | minus => exact unary_alike _ h
    | not => exact (asBool_alike h).map fun _ _ hab => hab ▸ .bool _
    | _ => exact .error hmismatch
  | toNumber => exact toNumberValue_alike h
  | toText => exact .ok (toTextValue_alike h)
  | toCharacter => exact toCharacterValue_alike h
  | toScalar => exact toScalarValue_alike h
  | truncate => exact (asNumber_alike h).map fun _ _ hab => hab ▸ .number _
  | sin | cos | tan | arcSin | arcCos | arcTan | log10 | log2 | ln =>
    exact floatFunction_alike _ h
  | readLine | writeOut | writeErr => exact .error hmismatch

private theorem result_two (b : BuiltIn) (h : Alike z v w) (h' : Alike z v' w') :
    AlikeResult (Alike z) (b.result [v, v']) (b.result [w, w']) := by
  have hmismatch := signatureMismatch_message_eq (List.Forall₂.cons h (.cons h' .nil))
  cases b with
  | operator o =>
    cases o with
    | plus => exact plus_alike h h'
    | minus | times | divide | remainder | quotient | modulo | power => exact binary_alike _ h h'
    | less | greater | lessOrEqual | greaterOrEqual => exact ordered_alike _ h h'
    | equal | notEqual => exact (equal_alike _ _ _ _ h h').map fun _ _ hab => hab ▸ .bool _
    | and | or | not => exact .error hmismatch
  | _ => exact .error hmismatch

theorem result_alike (b : BuiltIn) {xs ys : List Expr} (h : List.Forall₂ (Alike z) xs ys) :
    AlikeResult (Alike z) (b.result xs) (b.result ys) := by
  have hmismatch := signatureMismatch_message_eq h
  match h with
  | .cons h .nil => exact result_one b h
  | .cons h (.cons h' .nil) => exact result_two b h h'
  | .nil | .cons _ (.cons _ (.cons _ _)) =>
    cases b with
    | operator o => cases o <;> exact .error hmismatch
    | _ => exact .error hmismatch

end BuiltIn
end Song
