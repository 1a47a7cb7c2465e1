import Song.Proofs.Token.LongestMatch

/-!
# Texts cut into lexemes

A text that has tokens is cut into them and into blanks and comments, each the
longest match at its place, and nothing is lost. A lexical error is at the first
place where no lexeme starts, or where the longest one is a literal that denotes
nothing.
-/
namespace Song

open Pattern Lexeme

/-- The text up to some place is cut into lexemes, each the longest one at its place; the tokens
are those of the lexemes that are not skipped, each with the bytes of its lexeme. -/
inductive Cut (source : List Char) : List Char → List Located → Prop
  | start : Cut source [] []
  | skip {before text more : List Char} {tokens : List Located} (h : Cut source before tokens)
    (hs : source = before ++ text ++ more) (ht : Takes text .skip) (hl : IsLongest text more) :
    Cut source (before ++ text) tokens
  | token {before text more : List Char} {tokens : List Located} {t : Token}
    (h : Cut source before tokens) (hs : source = before ++ text ++ more)
    (ht : Takes text (.token t)) (hl : IsLongest text more) :
    Cut source (before ++ text)
      (tokens ++ [⟨t, ⟨byteLength before, byteLength (before ++ text)⟩⟩])

/-- Why no token can be read at the start of a text: the longest lexeme is at fault, or there is
none. -/
def FaultAt (rest : List Char) (fault : LexicalFault) : Prop :=
  (∃ text more, rest = text ++ more ∧ Takes text (.fault fault) ∧ IsLongest text more) ∨
  (∀ text, text <+: rest → text ∉ lexical) ∧ ∃ c, rest.head? = some c ∧ fault = noLexeme c

theorem byteLength_append (first second : List Char) :
    byteLength (first ++ second) = byteLength first + byteLength second := by
  induction first with
  | nil => exact (Nat.zero_add _).symm
  | cons c first ih => rw [List.cons_append, byteLength, byteLength, ih, Nat.add_assoc]

theorem byteLength_le_of_starts {first second : List Char} (h : first <+: second) :
    byteLength first ≤ byteLength second := by
  obtain ⟨more, rfl⟩ := h
  rw [byteLength_append]
  exact Nat.le_add_right _ _

theorem byteLength_pos {text : List Char} (h : text ≠ []) : 0 < byteLength text := by
  cases text with
  | nil => exact absurd rfl h
  | cons c text => exact Nat.add_pos_left c.utf8Size_pos _

/-- Characters of a lexeme that has been read are passed over. -/
theorem tokensFrom_length (text more : List Char) (offset : Nat) :
    tokensFrom text.length offset (text ++ more) =
      tokensFrom 0 (offset + byteLength text) more := by
  induction text generalizing offset with
  | nil => rfl
  | cons c text ih =>
    rw [List.length_cons, List.cons_append, tokensFrom, ih, byteLength, Nat.add_assoc]

/-- One lexeme is read, and then the text after it. -/
theorem tokensFrom_lexeme {c : Char} {text more : List Char} (offset : Nat)
    (h : text.length = (scan c (text ++ more)).extra) :
    tokensFrom 0 offset (c :: text ++ more) =
      match (scan c (text ++ more)).reading with
      | .skip => tokensFrom 0 (offset + byteLength (c :: text)) more
      | .token t => (tokensFrom 0 (offset + byteLength (c :: text)) more).map
          (⟨t, ⟨offset, offset + byteLength (c :: text)⟩⟩ :: ·)
      | .fault f => .error ⟨f, ⟨offset, offset + byteLength (c :: text)⟩⟩ := by
  have hbytes : c.utf8Size + byteLength text = byteLength (c :: text) := rfl
  rw [List.cons_append, tokensFrom, ← h, List.take_left, tokensFrom_length, Nat.add_assoc, hbytes]
  cases (scan c (text ++ more)).reading with
  | skip => rfl
  | token t => cases tokensFrom 0 (offset + byteLength (c :: text)) more <;> rfl
  | fault f => rfl

/-- What it means that reading on, after some tokens, gives this result: the whole text is cut
into those and the later tokens, or it is cut up to a place where no token can be read. -/
def CutWith (source : List Char) (tokens : List Located) :
    Except LexicalError (List Located) → Prop
  | .ok later => Cut source source (tokens ++ later)
  | .error e => ∃ before rest tokens, source = before ++ rest ∧ Cut source before tokens ∧
      e.span.start = byteLength before ∧ FaultAt rest e.fault

theorem CutWith.cons {source : List Char} {tokens : List Located} {t : Located}
    {result : Except LexicalError (List Located)} (h : CutWith source (tokens ++ [t]) result) :
    CutWith source tokens (result.map (t :: ·)) := by
  cases result with
  | ok later => rwa [CutWith, List.append_assoc] at h
  | error e => exact h

theorem tokensFrom_cutWith {source before rest : List Char} {tokens : List Located}
    (h : Cut source before tokens) (hs : source = before ++ rest) :
    CutWith source tokens (tokensFrom 0 (byteLength before) rest) := by
  -- by induction on what is left: a lexeme takes at least one character
  induction hn : rest.length using Nat.strong_induction_on generalizing rest before tokens with
  | _ n ih =>
  cases rest with
  | nil =>
    rw [List.append_nil] at hs
    subst hs
    rwa [tokensFrom, CutWith, List.append_nil]
  | cons c rest =>
    rcases scan_fits c rest with ⟨taken, more, htext, hlength, htakes, hlongest⟩ | hnone
    · cases taken with
      | nil => exact absurd rfl (ne_nil_of_takes htakes)
      | cons d text =>
        rw [List.cons_append] at htext
        obtain ⟨rfl, rfl⟩ := List.cons.inj htext
        have hmore : more.length < n := by
          simp only [List.length_cons, List.length_append] at hn
          omega
        have hcut : source = before ++ c :: text ++ more := by simpa using hs
        have hread := tokensFrom_lexeme (byteLength before) (Nat.succ.inj hlength)
        rw [← byteLength_append] at hread
        rw [← List.cons_append, hread]
        cases hreading : (scan c (text ++ more)).reading with
        | skip =>
          rw [hreading] at htakes
          exact ih _ hmore (.skip h hcut htakes hlongest) hcut rfl
        | token t =>
          rw [hreading] at htakes
          exact (ih _ hmore (.token h hcut htakes hlongest) hcut rfl).cons
        | fault f =>
          rw [hreading] at htakes
          exact ⟨before, _, tokens, hs, h, rfl, Or.inl ⟨_, more, rfl, htakes, hlongest⟩⟩
    · obtain ⟨hfree, d, hd, hreading⟩ := hnone
      rw [tokensFrom, hreading]
      exact ⟨before, _, tokens, hs, h, rfl, Or.inr ⟨hfree, d, hd, rfl⟩⟩

/-- The token is the longest match at some place of the text, and its span is that of the bytes
that it was read from. -/
def MatchedIn (source : List Char) (t : Located) : Prop :=
  ∃ before text after, source = before ++ text ++ after ∧
    t.span = ⟨byteLength before, byteLength (before ++ text)⟩ ∧
    Takes text (.token t.token) ∧ IsLongest text after

/-- A part of the text that no token touches, and that is a blank or a comment up to the end of
its line. -/
structure Skipped (source : List Char) (tokens : List Located) (first text after : List Char) :
    Prop where
  source_eq : source = first ++ text ++ after
  untouched : ∀ t ∈ tokens, t.span.stop ≤ byteLength first ∨
    byteLength (first ++ text) ≤ t.span.start
  blank : text ∈ gap ∨ text ∈ comment ∧ (after = [] ∨ after.head? = some '\n')

def Span.Contains (span : Span) (offset : Nat) : Prop :=
  span.start ≤ offset ∧ offset < span.stop

namespace Cut

variable {source upTo : List Char} {tokens : List Located}

theorem matchedIn (h : Cut source upTo tokens) : ∀ t ∈ tokens, MatchedIn source t := by
  induction h with
  | start => exact nofun
  | skip _ _ _ _ ih => exact ih
  | @token before text more tokens t _ hs ht hl ih =>
    rw [List.forall_mem_append]
    refine ⟨ih, ?_⟩
    rw [List.forall_mem_singleton]
    exact ⟨before, text, more, hs, rfl, ht, hl⟩

theorem stop_le (h : Cut source upTo tokens) : ∀ t ∈ tokens, t.span.stop ≤ byteLength upTo := by
  induction h with
  | start => exact nofun
  | skip _ _ _ _ ih =>
    intro t ht
    exact (ih t ht).trans (byteLength_le_of_starts (List.prefix_append _ _))
  | token _ _ _ _ ih =>
    rw [List.forall_mem_append]
    refine ⟨?_, List.forall_mem_singleton.2 (Nat.le_refl _)⟩
    intro t ht
    exact (ih t ht).trans (byteLength_le_of_starts (List.prefix_append _ _))

theorem pairwise (h : Cut source upTo tokens) :
    tokens.Pairwise fun first second => first.span.stop ≤ second.span.start := by
  induction h with
  | start => exact .nil
  | skip _ _ _ _ ih => exact ih
  | token h _ _ _ ih =>
    rw [List.pairwise_append]
    refine ⟨ih, List.pairwise_singleton _ _, ?_⟩
    intro t ht
    simpa using h.stop_le t ht

/-- A character before the place up to which the text is cut lies in a token or is skipped. -/
theorem contains_or_skipped (h : Cut source upTo tokens) {before after : List Char} {c : Char}
    (hs : source = before ++ c :: after) (hlt : before.length < upTo.length) :
    (∃ t ∈ tokens, t.span.Contains (byteLength before)) ∨
      ∃ first text after, Skipped source tokens first text after ∧ first ++ text <+: upTo ∧
        first.length ≤ before.length ∧ before.length < (first ++ text).length := by
  induction h with
  | start => cases hlt
  | @skip first text more tokens h hcut ht hl ih =>
    rcases Nat.lt_or_ge before.length first.length with hlt' | hge
    · apply (ih hlt').imp_right
      rintro ⟨first', text', after', hskipped, hstarts, hplace⟩
      exact ⟨first', text', after', hskipped, hstarts.trans (List.prefix_append _ _), hplace⟩
    · right
      refine ⟨first, text, more, ?_, List.prefix_rfl, hge, hlt⟩
      refine ⟨hcut, fun t ht => Or.inl (h.stop_le t ht), ?_⟩
      cases ht with
      | gap h => exact Or.inl h
      | comment h => exact Or.inr ⟨h, comment_ends h hl⟩
  | @token first text more tokens t h hcut ht hl ih =>
    rcases Nat.lt_or_ge before.length first.length with hlt' | hge
    · rcases ih hlt' with ⟨t, ht, hin⟩ | ⟨first', text', after', hskipped, hstarts, hplace⟩
      · exact Or.inl ⟨t, List.mem_append_left _ ht, hin⟩
      · right
        refine ⟨first', text', after', ?_, hstarts.trans (List.prefix_append _ _), hplace⟩
        refine ⟨hskipped.source_eq, ?_, hskipped.blank⟩
        rw [List.forall_mem_append]
        refine ⟨hskipped.untouched, ?_⟩
        rw [List.forall_mem_singleton]
        exact Or.inr (byteLength_le_of_starts hstarts)
    · left
      refine ⟨_, List.mem_append_right _ (List.mem_singleton_self _), ?_, ?_⟩
      · have hfirst : first <+: before :=
          List.prefix_of_prefix_length_le ⟨text ++ more, by rw [hcut, List.append_assoc]⟩
            ⟨c :: after, hs.symm⟩ hge
        exact byteLength_le_of_starts hfirst
      · have hchar : before ++ [c] <+: first ++ text :=
          List.prefix_of_prefix_length_le ⟨after, by simp [hs]⟩ ⟨more, hcut.symm⟩
            (by simpa [Nat.succ_le_iff] using hlt)
        have hle := byteLength_le_of_starts hchar
        rw [byteLength_append] at hle
        exact Nat.lt_of_lt_of_le (Nat.lt_add_of_pos_right (byteLength_pos (by simp))) hle

end Cut

theorem MatchedIn.start_lt_stop {source : List Char} {t : Located} (h : MatchedIn source t) :
    t.span.start < t.span.stop := by
  obtain ⟨before, text, after, -, hspan, ht, -⟩ := h
  rw [hspan, byteLength_append]
  exact Nat.lt_add_of_pos_right (byteLength_pos (ne_nil_of_takes ht))

theorem MatchedIn.notMem_reserved {source : List Char} {t : Located} (h : MatchedIn source t)
    {name : String} (hname : t.token = .identifier name) : name ∉ reserved.map Prod.fst := by
  obtain ⟨before, text, after, -, -, ht, -⟩ := h
  rw [hname] at ht
  exact notMem_reserved_of_takes ht

/-- A text that has tokens is cut into them and into blanks and comments, each the longest match
at its place. A text that has none is cut so up to the error, and there no lexeme starts or the
longest one is a literal that denotes nothing. -/
theorem tokenize_longestMatch (source : List Char) :
    (∀ tokens, tokenize source = .ok tokens →
      Cut source source tokens ∧
      tokens.Pairwise (fun first second => first.span.start < second.span.start ∧
        first.span.stop ≤ second.span.start) ∧
      (∀ t ∈ tokens, t.span.start < t.span.stop ∧ t.span.stop ≤ byteLength source ∧
        MatchedIn source t ∧ ∀ name, t.token = .identifier name → name ∉ reserved.map Prod.fst) ∧
      ∀ before c after, source = before ++ c :: after →
        (∃ t ∈ tokens, t.span.Contains (byteLength before)) ∨
          ∃ first text after, Skipped source tokens first text after ∧
            first.length ≤ before.length ∧ before.length < (first ++ text).length) ∧
    ∀ e, tokenize source = .error e → ∃ before rest tokens, source = before ++ rest ∧
      Cut source before tokens ∧ e.span.start = byteLength before ∧ FaultAt rest e.fault := by
  have hcut : CutWith source [] (tokenize source) := tokensFrom_cutWith .start rfl
  constructor
  · intro tokens htokens
    rw [htokens] at hcut
    replace hcut : Cut source source tokens := hcut
    refine ⟨hcut, ?_, ?_, ?_⟩
    · refine hcut.pairwise.imp_of_mem fun {first second} hfirst _ h => ⟨?_, h⟩
      exact (hcut.matchedIn first hfirst).start_lt_stop.trans_le h
    · intro t ht
      have hmatched := hcut.matchedIn t ht
      exact ⟨hmatched.start_lt_stop, hcut.stop_le t ht, hmatched,
        fun name hname => hmatched.notMem_reserved hname⟩
    · intro before c after hs
      apply (hcut.contains_or_skipped hs (by simp [hs])).imp_right
      rintro ⟨first, text, after, hskipped, -, hplace⟩
      exact ⟨first, text, after, hskipped, hplace⟩
  · intro e he
    rw [he] at hcut
    exact hcut

/-- A point after a numeral that no digit follows is a token of its own, a comment may hold a
quote, and a text may hold the sign of a comment; the second text ends in a bad escape. -/
theorem tokenize_longestMatch_pointAndQuotes :
    let source := ['1', '.', '_', 'E', ' ', '"', '#', 'é', '"', '#', '"', 'é']
    let tokens : List Located := [⟨.int 1, ⟨0, 1⟩⟩, ⟨.dot, ⟨1, 2⟩⟩, ⟨.identifier "_E", ⟨2, 4⟩⟩,
      ⟨.text ['#', 'é'], ⟨5, 10⟩⟩]
    tokenize source = .ok tokens ∧ Cut source source tokens ∧
      MatchedIn source ⟨.identifier "_E", ⟨2, 4⟩⟩ ∧
      (∃ first text after, Skipped source tokens first text after ∧
        first.length ≤ 10 ∧ 10 < (first ++ text).length) ∧
      tokenize ['E', 'n', 'd', '\'', '\\', 'q', '\''] = .error ⟨.invalidEscape 'q', ⟨3, 7⟩⟩ ∧
      ∃ before rest tokens, ['E', 'n', 'd', '\'', '\\', 'q', '\''] = before ++ rest ∧
        Cut ['E', 'n', 'd', '\'', '\\', 'q', '\''] before tokens ∧ 3 = byteLength before ∧
        FaultAt rest (.invalidEscape 'q') := by
  intro source tokens
  have hok : tokenize source = .ok tokens := rfl
  have herror : tokenize ['E', 'n', 'd', '\'', '\\', 'q', '\''] =
      .error ⟨.invalidEscape 'q', ⟨3, 7⟩⟩ := rfl
  obtain ⟨hcut, -, hmatched, hskipped⟩ := (tokenize_longestMatch source).1 tokens hok
  refine ⟨hok, hcut, (hmatched _ (by simp [tokens])).2.2.1, ?_, herror,
    (tokenize_longestMatch _).2 _ herror⟩
  apply (hskipped (source.take 10) '"' ['é'] rfl).resolve_left
  rintro ⟨t, ht, hin⟩
  simp only [tokens, List.mem_cons, List.not_mem_nil, or_false] at ht
  rcases ht with rfl | rfl | rfl | rfl <;> exact absurd hin.2 (by decide)

end Song
