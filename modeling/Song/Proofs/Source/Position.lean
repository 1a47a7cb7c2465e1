import Mathlib.Data.List.Basic
import Song.Proofs.Token.Cut

/-!
# Positions in a text

A byte offset that lies between two characters has a line and a column: the line is one of those
that the line ends divide the text into, and the offset comes after all earlier lines and after
as many characters of this one as the column says.
-/
namespace Song

/-- The offset lies between two characters of the text, or at one of its ends. -/
def IsBoundary (source : List Char) (offset : Nat) : Prop :=
  ∃ before after, source = before ++ after ∧ offset = byteLength before

namespace Position

/-- The offset is that of a character of the text, or of the end of a line, whose line and column
are those of the position, both counted from one. -/
def IsAt (position : Position) (source : List Char) (offset : Nat) : Prop :=
  ∃ earlier line later, source.splitOn '\n' = earlier ++ line :: later ∧
    position.line = earlier.length + 1 ∧
    1 ≤ position.column ∧ position.column - 1 ≤ line.length ∧
    offset = byteLength (earlier.flatMap (· ++ ['\n'])) +
      byteLength (line.take (position.column - 1))

theorem charsBefore?_byteLength (before after : List Char) :
    charsBefore? (byteLength before) (before ++ after) = some before := by
  induction before with
  | nil => cases after <;> rfl
  | cons c before ih =>
    have hpos := c.utf8Size_pos
    have hne : c.utf8Size + byteLength before ≠ 0 := by omega
    have hle : ¬c.utf8Size + byteLength before < c.utf8Size := by omega
    rw [byteLength, List.cons_append, charsBefore?, if_neg hne, if_neg hle,
      Nat.add_sub_cancel_left, ih, Option.map_some]

/-- The characters before an offset are whole lines and a part of one, which the position counts. -/
theorem exists_lines (before : List Char) : ∃ (earlier : List (List Char)) (part : List Char),
    before = earlier.flatMap (· ++ ['\n']) ++ part ∧
    (∀ line ∈ earlier, '\n' ∉ line) ∧ '\n' ∉ part ∧
    before.foldl Position.after first = ⟨earlier.length + 1, part.length + 1⟩ := by
  induction before using List.reverseRecOn with
  | nil => exact ⟨[], [], by simp [first]⟩
  | append_singleton before c ih =>
    obtain ⟨earlier, part, hbefore, hearlier, hpart, hposition⟩ := ih
    rw [List.foldl_append, hposition]
    by_cases hc : c = '\n'
    · refine ⟨earlier ++ [part], [], ?_, ?_, by simp, ?_⟩
      · simp [hbefore, hc]
      · rw [List.forall_mem_append]
        exact ⟨hearlier, List.forall_mem_singleton.2 hpart⟩
      · simp [Position.after, hc]
    · refine ⟨earlier, part ++ [c], ?_, hearlier, ?_, ?_⟩
      · simp [hbefore]
      · simpa using ⟨hpart, Ne.symm hc⟩
      · simp [Position.after, hc]

/-- Lines that end before the rest of the text are lines of the whole. -/
theorem splitOn_flatMap_append {earlier : List (List Char)} (h : ∀ line ∈ earlier, '\n' ∉ line)
    (rest : List Char) :
    (earlier.flatMap (· ++ ['\n']) ++ rest).splitOn '\n' = earlier ++ rest.splitOn '\n' := by
  induction earlier with
  | nil => rfl
  | cons line earlier ih =>
    obtain ⟨hline, hearlier⟩ := List.forall_mem_cons.1 h
    have hsingle : line.splitOn '\n' = [line] := by
      simpa using List.splitOn_intercalate '\n' (List.forall_mem_singleton.2 hline) (by simp)
    rw [List.flatMap_cons, List.append_assoc, List.append_assoc, List.singleton_append,
      List.splitOn_append_cons_self, hsingle, ih hearlier, List.singleton_append, List.cons_append]

/-- A part of a line goes on in the first line of what comes after it. -/
theorem exists_splitOn_append {part : List Char} (h : '\n' ∉ part) (rest : List Char) :
    ∃ more later, (part ++ rest).splitOn '\n' = (part ++ more) :: later := by
  induction part with
  | nil =>
    cases hrest : rest.splitOn '\n' with
    | nil => exact absurd hrest (List.splitOnP_ne_nil _ _)
    | cons more later => exact ⟨more, later, hrest⟩
  | cons c part ih =>
    obtain ⟨hc, hpart⟩ := not_or.1 (mt List.mem_cons.2 h)
    obtain ⟨more, later, hmore⟩ := ih hpart
    refine ⟨more, later, ?_⟩
    rw [List.splitOn_eq_splitOnP] at hmore ⊢
    rw [List.cons_append, List.splitOnP_cons_eq_if_modifyHead, if_neg (by simpa using Ne.symm hc),
      hmore]
    rfl

theorem ofOffset_isAt {source : List Char} {offset : Nat} (h : IsBoundary source offset) :
    (ofOffset source offset).IsAt source offset := by
  obtain ⟨before, after, rfl, rfl⟩ := h
  obtain ⟨earlier, part, hbefore, hearlier, hpart, hposition⟩ := exists_lines before
  obtain ⟨more, later, hline⟩ := exists_splitOn_append hpart after
  rw [ofOffset, charsBefore?_byteLength, Option.getD_some, hposition]
  refine ⟨earlier, part ++ more, later, ?_, rfl, ?_, ?_, ?_⟩
  · rw [hbefore, List.append_assoc, splitOn_flatMap_append hearlier, hline]
  · simp
  · simp
  · rw [Nat.add_sub_cancel, List.take_left, ← byteLength_append, ← hbefore]

end Position

def Span.IsPartOf (source : List Char) (span : Span) : Prop :=
  ∃ before text after, source = before ++ text ++ after ∧
    span = ⟨byteLength before, byteLength (before ++ text)⟩

namespace Span.IsPartOf

variable {source : List Char} {span : Span}

theorem start_le_stop (h : span.IsPartOf source) : span.start ≤ span.stop := by
  obtain ⟨before, text, after, -, rfl⟩ := h
  exact byteLength_le_of_starts (List.prefix_append _ _)

theorem stop_le (h : span.IsPartOf source) : span.stop ≤ byteLength source := by
  obtain ⟨before, text, after, rfl, rfl⟩ := h
  exact byteLength_le_of_starts (List.prefix_append _ _)

theorem isBoundary_start (h : span.IsPartOf source) : IsBoundary source span.start := by
  obtain ⟨before, text, after, rfl, rfl⟩ := h
  exact ⟨before, text ++ after, List.append_assoc _ _ _, rfl⟩

theorem isBoundary_stop (h : span.IsPartOf source) : IsBoundary source span.stop := by
  obtain ⟨before, text, after, rfl, rfl⟩ := h
  exact ⟨before ++ text, after, rfl, rfl⟩

/-- The empty span at the end of the text. -/
theorem atEnd (source : List Char) : (Span.point (byteLength source)).IsPartOf source :=
  ⟨source, [], [], by simp, by simp [point]⟩

end Span.IsPartOf

theorem MatchedIn.isPartOf {source : List Char} {t : Located} (h : MatchedIn source t) :
    t.span.IsPartOf source := by
  obtain ⟨before, text, after, hs, hspan, -⟩ := h
  exact ⟨before, text, after, hs, hspan⟩

/-- Tokens have the spans of parts of the text. -/
theorem tokenize_isPartOf {source : List Char} {tokens : List Located}
    (h : tokenize source = .ok tokens) : ∀ t ∈ tokens, t.span.IsPartOf source := by
  have hcut : CutWith source [] (tokenize source) := tokensFrom_cutWith .start rfl
  rw [h] at hcut
  intro t ht
  exact (Cut.matchedIn hcut t ht).isPartOf

/-- Every lexeme is a part of the text, also one that is at fault. -/
theorem tokensFrom_error_isPartOf {before rest : List Char} {pass : Nat} {e : LexicalError}
    (h : tokensFrom pass (byteLength before) rest = .error e) :
    e.span.IsPartOf (before ++ rest) := by
  induction rest generalizing before pass with
  | nil => cases h
  | cons c rest ih =>
    have hoffset : byteLength before + c.utf8Size = byteLength (before ++ [c]) := by
      rw [byteLength_append, byteLength, byteLength, Nat.add_zero]
    have hnext {pass : Nat} (h : tokensFrom pass (byteLength before + c.utf8Size) rest = .error e) :
        e.span.IsPartOf (before ++ c :: rest) := by
      rw [hoffset] at h
      simpa using ih h
    cases pass with
    | succ pass => exact hnext h
    | zero =>
      rw [tokensFrom] at h
      split at h
      case h_1 => exact hnext h
      case h_2 t ht =>
        split at h
        case h_1 => cases h
        case h_2 e' he' =>
          cases h
          exact hnext he'
      case h_3 f hf =>
        cases h
        refine ⟨before, c :: rest.take (Lexeme.scan c rest).extra,
          rest.drop (Lexeme.scan c rest).extra, ?_, ?_⟩
        · simp
        · rw [byteLength_append]

theorem tokenize_error_isPartOf {source : List Char} {e : LexicalError}
    (h : tokenize source = .error e) : e.span.IsPartOf source :=
  (tokensFrom_error_isPartOf h : e.span.IsPartOf ([] ++ source))

end Song
