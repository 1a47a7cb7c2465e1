import Song.Proofs.Grammar.Joined
import Song.Proofs.Session.Pending

/-!
# Input that is given up

A session keeps a text as long as more lines could complete it as far as the
parser can tell. What it gives up is at fault whatever lines come after it.
-/
namespace Song.Session

/-- After a line that leaves nothing pending the text was read, or its fault is not at its end. -/
theorem isIncomplete_of_discarded {session : Session} {line : String}
    (hc : session.command? line = none) {e : SyntaxError}
    (h : parseProgram (session.textWith line) = .error e) {limit : Nat}
    (hp : (session.input limit line).2.isPending = false) : e.isIncomplete = false := by
  rw [isPending_eq_false, input_pending hc, h] at hp
  dsimp only at hp
  rw [← Bool.not_eq_true]
  intro he
  rw [if_pos he] at hp
  exact ne_empty_of_parseProgram_error h hp

/-- A fault that is not at the end of a text is final: lines after it do not change it, unless they
have a lexical fault. So a session gives up only what no lines could have completed. -/
theorem discards_only_final :
    (∀ source e, parseProgram source = .error e → e.isIncomplete = false → ∀ more, ∃ e',
      parseProgram (source ++ "\n" ++ more) = .error e' ∧
        ((∃ fault, tokenize source.toList = .error fault) ∨
            (∃ tokens, tokenize more.toList = .ok tokens) →
          e'.fault = e.fault ∧ e'.message = e.message ∧ e'.span = e.span)) ∧
    ∀ (session : Session) (limit : Nat) (line : String) (e : SyntaxError),
      session.command? line = none → parseProgram (session.textWith line) = .error e →
        (session.input limit line).2.isPending = false → ∀ more, ∃ e',
          parseProgram (session.textWith line ++ "\n" ++ more) = .error e' := by
  constructor
  · intro source e h he more
    rcases parseProgram_joined_error h he more with
      hsame | ⟨⟨tokens, htokens⟩, fault, hfault, hlexical⟩
    · exact ⟨e, hsame, fun _ => ⟨rfl, rfl, rfl⟩⟩
    · refine ⟨_, hlexical, ?_⟩
      rintro (⟨other, hother⟩ | ⟨other, hother⟩)
      · rw [htokens] at hother
        cases hother
      · rw [hfault] at hother
        cases hother
  · intro session limit line e hc h hp more
    rcases parseProgram_joined_error h (isIncomplete_of_discarded hc h hp) more with
      hsame | ⟨-, fault, -, hlexical⟩
    · exact ⟨e, hsame⟩
    · exact ⟨_, hlexical⟩

/-- A parenthesis without its partner is given up at once, and rightly so. -/
theorem discards_only_final_paren :
    ((start false (.ofText "")).input stepLimit "x)").2.isPending = false ∧
      ∀ more, ∃ e', parseProgram ("x)" ++ "\n" ++ more) = .error e' := by
  have hcommand : (start false (.ofText "")).command? "x)" = none := rfl
  have htext : (start false (.ofText "")).textWith "x)" = "x)" := rfl
  have hfault : parseProgram "x)" =
      .error ⟨.unexpected (.token .newline) (some .rightParen), ⟨1, 2⟩⟩ := rfl
  have hgiven : ((start false (.ofText "")).input stepLimit "x)").2.isPending = false := by
    rw [isPending_eq_false, input_pending hcommand, htext, hfault]
    rfl
  have hfinal := discards_only_final.2 _ stepLimit "x)" _ hcommand (htext ▸ hfault) hgiven
  rw [htext] at hfinal
  exact ⟨hgiven, hfinal⟩

end Song.Session
