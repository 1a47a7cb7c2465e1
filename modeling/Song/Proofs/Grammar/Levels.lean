import Song.Proofs.Grammar.Precedence

/-!
# Operations level by level

A chain of operands is read at once, and its tree is made afterwards. Reading it level by level is
the same: the operators of a level stand between operands of the next tighter level and group to the
left, and powers, which are the tightest, group to the right.
-/
namespace Song

/-- The infix operators that bind at least as tightly as the level says. -/
def Operator.isFrom (level : Nat) (o : Operator) : Bool :=
  o.level?.any (level ≤ ·)

theorem Operator.isFrom_iff (level : Nat) (o : Operator) :
    o.isFrom level = true ↔ o.level? = some level ∨ o.isFrom (level + 1) = true := by
  cases h : o.level? with
  | none => simp [isFrom, h]
  | some other =>
    simp only [isFrom, h, Option.any_some, decide_eq_true_eq, Option.some.injEq]
    omega

theorem Operator.isFrom_of_succ {level : Nat} (o : Operator) (h : o.isFrom (level + 1) = true) :
    o.isFrom level = true :=
  (o.isFrom_iff level).2 (Or.inr h)

/-- The tightest operator is that of powers. -/
theorem Operator.isFrom_six : Operator.isFrom 6 = fun o => decide (o = .power) := by
  funext o
  cases o <;> rfl

theorem Operator.isFrom_zero : Operator.isFrom 0 = Operator.isInfix := by
  funext o
  cases o <;> rfl

namespace Grammar

variable {β σ : Type}

def nextOperator? : Tokens → Option (Operator × Tokens)
  | ⟨.operator o, _⟩ :: rest => some (o, rest)
  | _ => none

def operator? (among : Operator → Bool) (tokens : Tokens) : Option (Operator × Tokens) :=
  (nextOperator? tokens).filter fun next => among next.1

def operatorRound (among : Operator → Bool) (operand : Reader Expr)
    (grow : σ → Operator → Expr → σ) (finish : σ → β) (state : σ) : Reader (Round σ β) :=
  fun tokens =>
    match operator? among tokens with
    | some (o, rest) => do
      let (e, rest) ← operand (skipNewlines rest)
      return (.again (grow state o e), rest)
    | none => .ok (.done (finish state), tokens)

/-- One more operation of the level, with all that was read before as its left side. -/
def operationRound (level : Nat) (operand : Reader Expr) : Expr → Reader (Round Expr Expr) :=
  operatorRound (·.level? = some level) operand operation id

/-- Operations of the level, which group to the left. -/
def groupedLeft (level : Nat) (operand : Reader Expr) : Reader Expr := fun tokens => do
  let (first, tokens) ← operand tokens
  iterate (operationRound level operand) first tokens

/-- Powers, which group to the right; `bottom` reads the exponents that are nested `bound` deep. -/
def powersOver (bottom operand : Reader Expr) : Nat → Reader Expr
  | 0 => bottom
  | bound + 1 => fun tokens => do
    let (base, tokens) ← operand tokens
    match operator? (· = .power) tokens with
    | some (_, rest) =>
      let (exponent, rest) ← powersOver bottom operand bound (skipNewlines rest)
      return (operation base .power exponent, rest)
    | none => return (base, tokens)

def powers (operand : Reader Expr) : Reader Expr := fun tokens =>
  powersOver (fun tokens => .error (unexpected .expression tokens)) operand (tokens.length + 1)
    tokens

/-- Operations of the tightest levels: powers, and those of `looser` levels before them. -/
def operations (operand : Reader Expr) : Nat → Reader Expr
  | 0 => powers operand
  | looser + 1 => groupedLeft (5 - looser) (operations operand looser)

theorem nextOperator?_eq_some {o : Operator} {tokens rest : Tokens}
    (h : nextOperator? tokens = some (o, rest)) : ∃ span, tokens = ⟨.operator o, span⟩ :: rest := by
  rw [nextOperator?.eq_def] at h
  split at h
  case h_1 o' span rest' =>
    simp only [Option.some.injEq, Prod.mk.injEq] at h
    obtain ⟨rfl, rfl⟩ := h
    exact ⟨span, rfl⟩
  case h_2 => cases h

theorem length_of_nextOperator? {o : Operator} {tokens rest : Tokens}
    (h : nextOperator? tokens = some (o, rest)) : rest.length < tokens.length := by
  obtain ⟨span, rfl⟩ := nextOperator?_eq_some h
  exact Nat.lt_succ_self _

theorem operator?_of_next (among : Operator → Bool) {o : Operator} {tokens rest : Tokens}
    (h : nextOperator? tokens = some (o, rest)) :
    operator? among tokens = if among o then some (o, rest) else none := by
  simp [operator?, h, Option.filter_some]

theorem operator?_of_no_next (among : Operator → Bool) {tokens : Tokens}
    (h : nextOperator? tokens = none) : operator? among tokens = none := by
  simp [operator?, h]

theorem operator?_eq_some {among : Operator → Bool} {o : Operator} {tokens rest : Tokens}
    (h : operator? among tokens = some (o, rest)) :
    among o = true ∧ nextOperator? tokens = some (o, rest) := by
  rw [operator?, Option.filter_eq_some_iff] at h
  exact h.symm

theorem operator?_mono {fewer among : Operator → Bool}
    (hsub : ∀ o, fewer o = true → among o = true) {o : Operator} {tokens rest : Tokens}
    (h : operator? fewer tokens = some (o, rest)) : operator? among tokens = some (o, rest) := by
  obtain ⟨ho, hnext⟩ := operator?_eq_some h
  simp [operator?_of_next among hnext, hsub o ho]

/-- An operator that binds as tightly as the level says is of the level or binds more tightly. -/
theorem operator?_isFrom_eq_none {level : Nat} {tokens : Tokens}
    (hsame : operator? (·.level? = some level) tokens = none)
    (htighter : operator? (Operator.isFrom (level + 1)) tokens = none) :
    operator? (Operator.isFrom level) tokens = none := by
  cases hnext : nextOperator? tokens with
  | none => exact operator?_of_no_next _ hnext
  | some next =>
    simp only [operator?_of_next _ hnext, ite_eq_right_iff, reduceCtorEq, imp_false,
      decide_eq_true_eq] at *
    rw [Operator.isFrom_iff]
    exact not_or.2 ⟨hsame, htighter⟩

section Operand

variable {operand : Reader Expr} (ho : operand.Advances) {among : Operator → Bool}
  {grow : σ → Operator → Expr → σ} {finish : σ → β}

include ho

/-- A round that goes on takes an operator and an operand. -/
theorem operatorRound_again {state later : σ} {tokens left : Tokens}
    (h : operatorRound among operand grow finish state tokens = .ok (.again later, left)) :
    left <:+ tokens ∧ left.length + 2 ≤ tokens.length := by
  rw [operatorRound] at h
  split at h
  case h_1 o rest hnext =>
    obtain ⟨span, rfl⟩ := nextOperator?_eq_some (operator?_eq_some hnext).2
    cases hread : operand (skipNewlines rest) with
    | error stop =>
      rw [hread] at h
      cases h
    | ok pair =>
      rw [hread] at h
      cases h
      have hlt := ho.length_lt hread
      have hle := (skipNewlines_suffix rest).length_le
      have hleft := (skipped_leaves ho rest _ _ hread).2
      constructor
      · exact hleft.trans (List.suffix_cons _ rest)
      · rw [List.length_cons]
        omega
  case h_2 => cases h

theorem operatorRound_advances : RoundAdvances (operatorRound among operand grow finish) := by
  constructor
  · intro state tokens read left h
    cases read with
    | again later => exact ⟨trivial, (operatorRound_again ho h).1⟩
    | done result =>
      rw [operatorRound] at h
      split at h
      case h_1 o rest hnext =>
        cases hread : operand (skipNewlines rest) <;> rw [hread] at h <;> cases h
      case h_2 =>
        cases h
        exact ⟨trivial, List.suffix_rfl⟩
  · intro state later tokens left h
    have hle := (operatorRound_again ho h).2
    omega

/-- A repetition that comes to an operator goes on after its operand. -/
theorem iterate_operatorRound_next {o : Operator} {tokens rest : Tokens}
    (h : operator? among tokens = some (o, rest)) (state : σ) :
    iterate (operatorRound among operand grow finish) state tokens =
      operand (skipNewlines rest) >>= fun read =>
        iterate (operatorRound among operand grow finish) (grow state o read.1) read.2 := by
  rw [iterate_eq (operatorRound_advances ho), operatorRound, h]
  dsimp only
  cases operand (skipNewlines rest) <;> rfl

theorem iterate_operatorRound_none {tokens : Tokens} (h : operator? among tokens = none)
    (state : σ) :
    iterate (operatorRound among operand grow finish) state tokens =
      .ok (finish state, tokens) := by
  rw [iterate_eq (operatorRound_advances ho), operatorRound, h]

end Operand

def linksAmong (among : Operator → Bool) (operand : Reader Expr) : Reader Links :=
  iterate (operatorRound among operand (fun read o e => (o, e) :: read) List.reverse) []

def chainAmong (among : Operator → Bool) (operand : Reader Expr) : Reader Expr := fun tokens => do
  let (first, tokens) ← operand tokens
  let (rest, tokens) ← linksAmong among operand tokens
  return (tree first rest, tokens)

section Links

variable {operand : Reader Expr} (ho : operand.Advances) {among : Operator → Bool}

include ho

/-- What was read before stays before the links. -/
theorem iterate_linksAmong (read : Links) (tokens : Tokens) :
    iterate (operatorRound among operand (fun read o e => (o, e) :: read) List.reverse) read
        tokens =
      linksAmong among operand tokens >>= fun links => .ok (read.reverse ++ links.1, links.2) := by
  rw [linksAmong]
  cases hnext : operator? among tokens with
  | none =>
    rw [iterate_operatorRound_none ho hnext, iterate_operatorRound_none ho hnext]
    simp [bind, Except.bind]
  | some next =>
    obtain ⟨o, rest⟩ := next
    rw [iterate_operatorRound_next ho hnext, iterate_operatorRound_next ho hnext]
    cases hread : operand (skipNewlines rest) with
    | error stop => rfl
    | ok pair =>
      have hrest := length_of_nextOperator? (operator?_eq_some hnext).2
      have hskip := (skipNewlines_suffix rest).length_le
      have hleft := ho.length_lt hread
      have hone := iterate_linksAmong [(o, pair.1)] pair.2
      have hmore := iterate_linksAmong ((o, pair.1) :: read) pair.2
      simp only [bind, Except.bind] at hone hmore ⊢
      rw [hone, hmore]
      cases linksAmong among operand pair.2 <;> simp
termination_by tokens.length

theorem linksAmong_next {o : Operator} {tokens rest : Tokens}
    (h : operator? among tokens = some (o, rest)) :
    linksAmong among operand tokens =
      operand (skipNewlines rest) >>= fun read =>
        linksAmong among operand read.2 >>= fun links => .ok ((o, read.1) :: links.1, links.2) := by
  apply (iterate_operatorRound_next ho h []).trans
  apply bind_congr
  intro read
  exact iterate_linksAmong ho [(o, read.1)] read.2

theorem linksAmong_none {tokens : Tokens} (h : operator? among tokens = none) :
    linksAmong among operand tokens = .ok ([], tokens) :=
  iterate_operatorRound_none ho h []

/-- All links have operators among those, and none of those comes after the links. -/
theorem linksAmong_eq_ok {tokens rest : Tokens} {links : Links}
    (h : linksAmong among operand tokens = .ok (links, rest)) :
    (∀ link ∈ links, among link.1 = true) ∧ operator? among rest = none ∧ rest <:+ tokens := by
  cases hnext : operator? among tokens with
  | none =>
    rw [linksAmong_none ho hnext] at h
    cases h
    exact ⟨List.forall_mem_nil _, hnext, List.suffix_rfl⟩
  | some next =>
    obtain ⟨o, more⟩ := next
    obtain ⟨hamong, hmore⟩ := operator?_eq_some hnext
    rw [linksAmong_next ho hnext] at h
    cases hread : operand (skipNewlines more) with
    | error stop =>
      rw [hread] at h
      cases h
    | ok pair =>
      have hskip := (skipNewlines_suffix more).length_le
      have hlt := ho.length_lt hread
      have hlength := length_of_nextOperator? hmore
      have hleft := (skipped_leaves ho more _ _ hread).2
      cases hlinks : linksAmong among operand pair.2 with
      | error stop =>
        simp [hread, hlinks, bind, Except.bind] at h
      | ok later =>
        simp only [hread, hlinks, bind, Except.bind, Except.ok.injEq, Prod.mk.injEq] at h
        obtain ⟨rfl, rfl⟩ := h
        obtain ⟨hall, hstop, hsuffix⟩ := linksAmong_eq_ok hlinks
        obtain ⟨span, rfl⟩ := nextOperator?_eq_some hmore
        refine ⟨List.forall_mem_cons.2 ⟨hamong, hall⟩, hstop, ?_⟩
        exact (hsuffix.trans hleft).trans (List.suffix_cons _ more)
termination_by tokens.length

/-- The links with operators among more of them start with those among fewer. -/
theorem linksAmong_split {fewer : Operator → Bool} (hsub : ∀ o, fewer o = true → among o = true)
    (tokens : Tokens) :
    linksAmong among operand tokens =
      linksAmong fewer operand tokens >>= fun first =>
        linksAmong among operand first.2 >>= fun later => .ok (first.1 ++ later.1, later.2) := by
  cases hfewer : operator? fewer tokens with
  | none =>
    rw [linksAmong_none ho hfewer]
    cases h : linksAmong among operand tokens <;> simp [h, bind, Except.bind]
  | some next =>
    obtain ⟨o, rest⟩ := next
    have hnext := (operator?_eq_some hfewer).2
    rw [linksAmong_next ho hfewer, linksAmong_next ho (operator?_mono hsub hfewer)]
    cases hread : operand (skipNewlines rest) with
    | error stop => rfl
    | ok pair =>
      have hskip := (skipNewlines_suffix rest).length_le
      have hlt := ho.length_lt hread
      have hlength := length_of_nextOperator? hnext
      have hsplit := linksAmong_split hsub pair.2
      simp only [bind, Except.bind] at hsplit ⊢
      rw [hsplit]
      cases linksAmong fewer operand pair.2 with
      | error stop => rfl
      | ok first =>
        dsimp only
        cases linksAmong among operand first.2 <;> rfl
termination_by tokens.length

theorem chainAmong_advances : (chainAmong among operand).Advances := by
  apply ho.bind
  intro first rest
  dsimp only
  cases hlinks : linksAmong among operand rest with
  | error stop => exact .error stop
  | ok links => exact .ok trivial (linksAmong_eq_ok ho hlinks).2.2

end Links

/-! ### The levels of a chain -/

/-- An operator that groups to the left takes its left side after all that bind as tightly. -/
theorem bindsBefore_of_isFrom {level : Nat} {waiting next : Operator} (hlevel : level < 6)
    (hn : next.level? = some level) (hw : waiting.isFrom level = true) :
    bindsBefore waiting next = true := by
  have hpower : next ≠ .power := by
    rintro rfl
    cases hn
    omega
  cases h : waiting.level? with
  | none => simp [Operator.isFrom, h] at hw
  | some other =>
    simp only [Operator.isFrom, h, Option.any_some, decide_eq_true_eq] at hw
    simp [bindsBefore, groupsRight, h, hn, hpower]
    omega

theorem bindsBefore_of_isFrom_succ {level : Nat} {waiting next : Operator}
    (hw : waiting.level? = some level) (hn : next.isFrom (level + 1) = true) :
    bindsBefore waiting next = false := by
  cases h : next.level? with
  | none => simp [Operator.isFrom, h] at hn
  | some other =>
    simp only [Operator.isFrom, h, Option.any_some, decide_eq_true_eq] at hn
    simp [bindsBefore, h, hw]
    omega

/-- One operation of the level makes one tree with the operations on both sides of it. -/
theorem operation_tree {level : Nat} (hlevel : level < 6) {o : Operator}
    (ho : o.level? = some level) {before after : Links}
    (hbefore : ∀ link ∈ before, link.1.isFrom level = true)
    (hafter : ∀ link ∈ after, link.1.isFrom (level + 1) = true) (first e : Expr) :
    operation (tree first before) o (tree e after) = tree first (before ++ (o, e) :: after) := by
  refine (tree_split (fun link hmem => ?_) (fun link hmem => ?_) first e).symm
  · exact bindsBefore_of_isFrom hlevel ho (hbefore link hmem)
  · exact bindsBefore_of_isFrom_succ ho (hafter link hmem)

section Levels

variable {operand : Reader Expr} (ho : operand.Advances)

include ho

/-- The operations of a level make one tree with what was read before, as the links of the level
do. -/
theorem iterate_operationRound {level : Nat} (hlevel : level < 6) (first : Expr) {before : Links}
    (hbefore : ∀ link ∈ before, link.1.isFrom level = true) {tokens : Tokens}
    (hstop : operator? (Operator.isFrom (level + 1)) tokens = none) :
    iterate (operationRound level (chainAmong (Operator.isFrom (level + 1)) operand))
        (tree first before) tokens =
      linksAmong (Operator.isFrom level) operand tokens >>= fun links =>
        .ok (tree first (before ++ links.1), links.2) := by
  have hchain : (chainAmong (Operator.isFrom (level + 1)) operand).Advances :=
    chainAmong_advances ho
  cases hround : operator? (·.level? = some level) tokens with
  | none =>
    rw [operationRound, iterate_operatorRound_none hchain hround,
      linksAmong_none ho (operator?_isFrom_eq_none hround hstop)]
    simp [bind, Except.bind]
  | some next =>
    obtain ⟨o, rest⟩ := next
    obtain ⟨hsame, hnext⟩ := operator?_eq_some hround
    have hlink := operator?_mono (fun o h =>
      (o.isFrom_iff level).2 (Or.inl (of_decide_eq_true h))) hround
    rw [operationRound, iterate_operatorRound_next hchain hround, ← operationRound,
      linksAmong_next ho hlink, chainAmong]
    cases hread : operand (skipNewlines rest) with
    | error stop => rfl
    | ok pair =>
      have hsplit := linksAmong_split ho (@Operator.isFrom_of_succ level) pair.2
      simp only [bind, Except.bind] at hsplit ⊢
      rw [hsplit]
      cases hlinks : linksAmong (Operator.isFrom (level + 1)) operand pair.2 with
      | error stop => rfl
      | ok links =>
        obtain ⟨hall, hend, hsuffix⟩ := linksAmong_eq_ok ho hlinks
        have htree := operation_tree hlevel (of_decide_eq_true hsame) hbefore hall first pair.1
        have hnow : ∀ link ∈ before ++ (o, pair.1) :: links.1, link.1.isFrom level = true := by
          rw [List.forall_mem_append, List.forall_mem_cons]
          refine ⟨hbefore, (operator?_eq_some hlink).1, ?_⟩
          intro link hmem
          exact link.1.isFrom_of_succ (hall link hmem)
        have hlt := ho.length_lt hread
        have hskip := (skipNewlines_suffix rest).length_le
        have hlength := length_of_nextOperator? hnext
        have hshorter := hsuffix.length_le
        have hmore := iterate_operationRound hlevel first hnow hend
        dsimp only [pure, Except.pure]
        rw [htree, hmore]
        cases linksAmong (Operator.isFrom level) operand links.2 with
        | error stop => rfl
        | ok later => simp [bind, Except.bind]
termination_by tokens.length

/-- Operations of a level, with chains of tighter ones as operands, are the chains of the level. -/
theorem groupedLeft_chainAmong {level : Nat} (hlevel : level < 6) (tokens : Tokens) :
    groupedLeft level (chainAmong (Operator.isFrom (level + 1)) operand) tokens =
      chainAmong (Operator.isFrom level) operand tokens := by
  rw [groupedLeft, chainAmong, chainAmong]
  cases operand tokens with
  | error stop => rfl
  | ok pair =>
    have hsplit := linksAmong_split ho (@Operator.isFrom_of_succ level) pair.2
    simp only [bind, Except.bind] at hsplit ⊢
    rw [hsplit]
    cases hlinks : linksAmong (Operator.isFrom (level + 1)) operand pair.2 with
    | error stop => rfl
    | ok links =>
      obtain ⟨hall, hend, -⟩ := linksAmong_eq_ok ho hlinks
      have hmore := iterate_operationRound ho hlevel pair.1
        (fun link hmem => link.1.isFrom_of_succ (hall link hmem)) hend
      dsimp only [pure, Except.pure]
      rw [hmore]
      cases linksAmong (Operator.isFrom level) operand links.2 <;> rfl

/-- Powers are the chains of the tightest level, whatever reads exponents that are nested deeper
than there are tokens. -/
theorem powersOver_eq (bottom : Reader Expr) {bound : Nat} {tokens : Tokens}
    (h : tokens.length < bound) :
    powersOver bottom operand bound tokens = chainAmong (Operator.isFrom 6) operand tokens := by
  induction bound generalizing tokens with
  | zero => cases h
  | succ bound ih =>
    rw [powersOver, chainAmong, Operator.isFrom_six]
    dsimp only
    cases hread : operand tokens with
    | error stop => rfl
    | ok pair =>
      have hlt := ho.length_lt hread
      simp only [bind, Except.bind]
      cases hnext : operator? (fun o => decide (o = .power)) pair.2 with
      | none => rw [linksAmong_none ho hnext]; rfl
      | some next =>
        obtain ⟨o, rest⟩ := next
        obtain ⟨hpower, hrest⟩ := operator?_eq_some hnext
        obtain rfl : o = .power := by simpa using hpower
        have hskip := (skipNewlines_suffix rest).length_le
        have hlength := length_of_nextOperator? hrest
        dsimp only
        rw [ih (by omega), linksAmong_next ho hnext, chainAmong, Operator.isFrom_six]
        cases operand (skipNewlines rest) with
        | error stop => rfl
        | ok exponent =>
          simp only [bind, Except.bind]
          cases hlinks : linksAmong (fun o => decide (o = .power)) operand exponent.2 with
          | error stop => rfl
          | ok links =>
            have hafter : ∀ link ∈ links.1, bindsBefore .power link.1 = false := by
              intro link hmem
              have hlink := (linksAmong_eq_ok ho hlinks).1 link hmem
              simp only [decide_eq_true_eq] at hlink
              simp [hlink, bindsBefore, groupsRight]
            have htree : tree pair.1 ((.power, exponent.1) :: links.1) =
                operation pair.1 .power (tree exponent.1 links.1) :=
              tree_split (List.forall_mem_nil _) hafter pair.1 exponent.1
            simp only [pure, Except.pure, htree]

theorem powers_eq : powers operand = chainAmong (Operator.isFrom 6) operand := by
  funext tokens
  exact powersOver_eq ho _ (Nat.lt_succ_self _)

/-- Operations of the tightest levels are chains of their operators. -/
theorem operations_eq {looser : Nat} (h : looser ≤ 6) :
    operations operand looser = chainAmong (Operator.isFrom (6 - looser)) operand := by
  induction looser with
  | zero => exact powers_eq ho
  | succ looser ih =>
    have hlevel : 6 - looser = 5 - looser + 1 := by omega
    have hnext : 6 - (looser + 1) = 5 - looser := by omega
    funext tokens
    rw [operations, ih (by omega), hlevel, groupedLeft_chainAmong ho (by omega), hnext]

omit ho in
theorem chainRound_eq (operand : Reader Expr) :
    chainRound operand =
      operatorRound Operator.isInfix operand (fun read o e => (o, e) :: read) List.reverse := by
  funext read tokens
  cases tokens with
  | nil => rfl
  | cons next rest =>
    obtain ⟨t, span⟩ := next
    cases t with
    | operator o =>
      rw [chainRound, operatorRound, operator?_of_next _ rfl]
      by_cases h : o.isInfix = true <;> simp [h]
    | _ => rfl

/-- A chain is read level by level. -/
theorem chain_eq_operations : chain operand = operations operand 6 := by
  rw [operations_eq ho (Nat.le_refl 6), Nat.sub_self, Operator.isFrom_zero]
  funext tokens
  rw [chain, chainRound_eq, chainAmong, linksAmong]

theorem powers_advances : (powers operand).Advances := by
  rw [powers_eq ho]
  exact chainAmong_advances ho

theorem operations_advances (looser : Nat) : (operations operand looser).Advances := by
  induction looser with
  | zero => exact powers_advances ho
  | succ looser ih => exact ih.bind (iterate_leaves (operatorRound_advances ih))

end Levels

section Congruence

variable {operand operand' : Reader Expr} (ho : operand.Advances) {bound : Nat}
  (h : ∀ tokens, tokens.length ≤ bound → operand' tokens = operand tokens)

include ho h

theorem groupedLeft_congr (level : Nat) {tokens : Tokens} (ht : tokens.length ≤ bound) :
    groupedLeft level operand' tokens = groupedLeft level operand tokens := by
  have hround (left : Expr) (part : Tokens) (hp : part.length ≤ bound) :
      operationRound level operand' left part = operationRound level operand left part := by
    rw [operationRound, operationRound, operatorRound, operatorRound]
    split
    case h_1 o rest hnext =>
      have hlt := length_of_nextOperator? (operator?_eq_some hnext).2
      have hskip := (skipNewlines_suffix rest).length_le
      rw [h _ (by omega)]
    case h_2 => rfl
  rw [groupedLeft, groupedLeft, h tokens ht]
  cases hread : operand tokens with
  | error stop => rfl
  | ok pair =>
    have hlt := ho.length_lt hread
    exact iterate_congr (operatorRound_advances ho) hround pair.1 (by omega)

theorem powersOver_congr (bottom : Reader Expr) (times : Nat) {tokens : Tokens}
    (ht : tokens.length ≤ bound) :
    powersOver bottom operand' times tokens = powersOver bottom operand times tokens := by
  induction times generalizing tokens with
  | zero => rfl
  | succ times ih =>
    rw [powersOver, powersOver]
    dsimp only
    rw [h tokens ht]
    cases hread : operand tokens with
    | error stop => rfl
    | ok pair =>
      have hlt := ho.length_lt hread
      simp only [bind, Except.bind]
      cases hnext : operator? (fun o => decide (o = .power)) pair.2 with
      | none => rfl
      | some next =>
        have hlength := length_of_nextOperator? (operator?_eq_some hnext).2
        have hskip := (skipNewlines_suffix next.2).length_le
        dsimp only
        rw [ih (by omega)]

/-- Operations depend only on the operands within the tokens. -/
theorem operations_congr (looser : Nat) {tokens : Tokens} (ht : tokens.length ≤ bound) :
    operations operand' looser tokens = operations operand looser tokens := by
  induction looser generalizing tokens with
  | zero => exact powersOver_congr ho h _ _ ht
  | succ looser ih => exact groupedLeft_congr (operations_advances ho looser) (fun _ => ih) _ ht

end Congruence

end Grammar
end Song
