import Primer.Tree.Program

/-!
# Laws of readers

How the readers of single tokens come out, in both directions: what is known of the tokens when a
reader succeeds (`…_eq_ok`), and what a reader does on tokens of a given form.

- `Reader.bind_eq_ok` takes a reader apart, `Reader.bind_ok` runs its first part.
- `Reader.commaList_rec` is induction over the rounds of a list reader.
- `Arithmetic.negate?_eq_some_iff` says what comes of negating the number of a case label.
-/

namespace Primer

/-- What is next is not the token `t`. -/
def NotNext (t : Token) (tokens : List Lexeme) : Prop :=
  ∀ l ∈ tokens.head?, l.token ≠ t

theorem notNext_cons {t u : Token} {pos : Position} {rest : List Lexeme} (h : u ≠ t) :
    NotNext t (⟨u, pos⟩ :: rest) := by
  rintro l ⟨⟩
  exact h

theorem Token.type?_eq_some {t : Token} {type : Ty} (h : t.type? = some type) :
    t = .keyword (.typeWord type) := by
  unfold Token.type? at h
  split at h
  · cases h
    rfl
  · cases h

namespace Reader

variable {α β : Type} {tokens rest : List Lexeme}

/-! ## Composition -/

theorem bind_apply (x : Reader α) (f : α → Reader β) (tokens : List Lexeme) :
    (x >>= f) tokens =
      match x tokens with
      | .ok a rest => f a rest
      | .error e => .error e
      | .overflow => .overflow
      | .unfinished => .unfinished := rfl

theorem bind_ok {x : Reader α} {f : α → Reader β} {a : α} {rest : List Lexeme}
    (h : x tokens = .ok a rest) : (x >>= f) tokens = f a rest := by
  rw [bind_apply, h]

/-- Two readers in a row that succeed. -/
theorem bind_eq_ok {x : Reader α} {f : α → Reader β} {b : β} (h : (x >>= f) tokens = .ok b rest) :
    ∃ a between, x tokens = .ok a between ∧ f a between = .ok b rest := by
  rw [bind_apply] at h
  cases hx : x tokens with
  | ok a between => exact ⟨a, between, rfl, by simpa [hx] using h⟩
  | error e => simp [hx] at h
  | overflow => simp [hx] at h
  | unfinished => simp [hx] at h

@[simp] theorem pure_apply (a : α) (tokens : List Lexeme) :
    (pure a : Reader α) tokens = .ok a tokens := rfl

@[simp] theorem peek_apply (tokens : List Lexeme) :
    peek tokens = .ok (tokens.head?.map Lexeme.token) tokens := rfl

theorem peek_eq_ok {next : Option Token} (h : peek tokens = .ok next rest) :
    tokens.head?.map Lexeme.token = next ∧ tokens = rest := by
  cases h
  exact ⟨rfl, rfl⟩

theorem peek_bind (f : Option Token → Reader β) (tokens : List Lexeme) :
    (peek >>= f) tokens = f (tokens.head?.map Lexeme.token) tokens := rfl

theorem here_bind (f : Position → Reader β) (tokens : List Lexeme) :
    (here >>= f) tokens = f ((tokens.head?.map Lexeme.pos).getD .start) tokens := rfl

/-- Reading goes on behind a token that was looked at. -/
theorem of_skip_bind {f : Unit → Reader β} {l : Lexeme} {b : β}
    (h : (skip >>= f) (l :: tokens) = .ok b rest) : f () tokens = .ok b rest :=
  h

/-! ## Single tokens -/

theorem take?_some {choose : Token → Option α} {t : Token} {a : α} (h : choose t = some a)
    (pos : Position) (rest : List Lexeme) :
    take? choose (⟨t, pos⟩ :: rest) = .ok (some (a, pos)) rest := by
  simp [take?, h]

theorem take?_none {choose : Token → Option α} (h : ∀ l ∈ tokens.head?, choose l.token = none) :
    take? choose tokens = .ok none tokens := by
  cases tokens with
  | nil => rfl
  | cons l rest => simp [take?, h l rfl]

theorem take?_eq_ok {choose : Token → Option α} {found : Option (α × Position)}
    (h : take? choose tokens = .ok found rest) :
    (∃ t a pos, found = some (a, pos) ∧ tokens = ⟨t, pos⟩ :: rest ∧ choose t = some a) ∨
      (found = none ∧ rest = tokens ∧ ∀ l ∈ tokens.head?, choose l.token = none) := by
  cases tokens with
  | nil =>
    simp only [take?, Reading.ok.injEq] at h
    exact .inr ⟨h.1.symm, h.2.symm, by simp⟩
  | cons l more =>
    cases hl : choose l.token with
    | none =>
      simp only [take?, hl, Reading.ok.injEq] at h
      exact .inr ⟨h.1.symm, h.2.symm, by simpa using hl⟩
    | some a =>
      simp only [take?, hl, Reading.ok.injEq] at h
      exact .inl ⟨l.token, a, l.pos, h.1.symm, by rw [h.2], hl⟩

theorem take_eq_ok {choose : Token → Option α} {expected : Expected} {found : α × Position}
    (h : take choose expected tokens = .ok found rest) :
    ∃ t, tokens = ⟨t, found.2⟩ :: rest ∧ choose t = some found.1 := by
  obtain ⟨found?, between, htake, hfound⟩ := bind_eq_ok h
  rcases take?_eq_ok htake with ⟨t, a, pos, rfl, rfl, ht⟩ | ⟨rfl, -, -⟩
  · cases hfound
    exact ⟨t, rfl, ht⟩
  · cases hfound

theorem accept_hit (t : Token) (pos : Position) (rest : List Lexeme) :
    accept t (⟨t, pos⟩ :: rest) = .ok (some pos) rest := by
  rw [accept, bind_ok (take?_some (if_pos rfl) pos rest)]
  rfl

theorem accept_miss {t : Token} (h : NotNext t tokens) : accept t tokens = .ok none tokens := by
  rw [accept, bind_ok (take?_none fun l hl => if_neg (h l hl))]
  rfl

theorem accept_eq_ok {t : Token} {found : Option Position} (h : accept t tokens = .ok found rest) :
    (∃ pos, found = some pos ∧ tokens = ⟨t, pos⟩ :: rest) ∨
      (found = none ∧ rest = tokens ∧ NotNext t tokens) := by
  obtain ⟨found?, between, htake, hfound⟩ := bind_eq_ok h
  rcases take?_eq_ok htake with ⟨u, a, pos, rfl, rfl, hu⟩ | ⟨rfl, rfl, hnone⟩
  · cases hfound
    have hu : u = t := Classical.byContradiction fun hne => by
      rw [if_neg hne] at hu
      cases hu
    exact .inl ⟨pos, rfl, by rw [hu]⟩
  · cases hfound
    refine .inr ⟨rfl, rfl, fun l hl ht => ?_⟩
    have := hnone l hl
    rw [if_pos ht] at this
    cases this

theorem expect_hit (t : Token) (expected : Expected) (pos : Position) (rest : List Lexeme) :
    expect t expected (⟨t, pos⟩ :: rest) = .ok pos rest := by
  rw [expect, bind_ok (accept_hit t pos rest)]
  rfl

theorem expect_eq_ok {t : Token} {expected : Expected} {pos : Position}
    (h : expect t expected tokens = .ok pos rest) : tokens = ⟨t, pos⟩ :: rest := by
  obtain ⟨found, between, haccept, hfound⟩ := bind_eq_ok h
  rcases accept_eq_ok haccept with ⟨pos', rfl, rfl⟩ | ⟨rfl, -, -⟩
  · cases hfound
    rfl
  · cases hfound

theorem punct_hit (p : Punct) (expected : Expected) (pos : Position) (rest : List Lexeme) :
    punct p expected (⟨.punct p, pos⟩ :: rest) = .ok pos rest :=
  expect_hit _ expected pos rest

theorem punct_eq_ok {p : Punct} {expected : Expected} {pos : Position}
    (h : punct p expected tokens = .ok pos rest) : tokens = ⟨.punct p, pos⟩ :: rest :=
  expect_eq_ok h

theorem identifier_hit (expected : Expected) (name : String) (pos : Position) (rest : List Lexeme) :
    identifier expected (⟨.identifier name, pos⟩ :: rest) = .ok (name, pos) rest :=
  rfl

theorem identifier_eq_ok {expected : Expected} {found : String × Position}
    (h : identifier expected tokens = .ok found rest) :
    tokens = ⟨.identifier found.1, found.2⟩ :: rest := by
  obtain ⟨t, rfl, ht⟩ := take_eq_ok h
  split at ht
  · cases ht
    rfl
  · cases ht

theorem typeName_hit (type : Ty) (pos : Position) (rest : List Lexeme) :
    typeName (⟨.keyword (.typeWord type), pos⟩ :: rest) = .ok (type, pos) rest :=
  rfl

theorem typeName_eq_ok {found : Ty × Position} (h : typeName tokens = .ok found rest) :
    tokens = ⟨.keyword (.typeWord found.1), found.2⟩ :: rest := by
  obtain ⟨t, rfl, ht⟩ := take_eq_ok h
  rw [Token.type?_eq_some ht]

theorem atType_eq_ok {found : Bool} (h : atType tokens = .ok found rest) : tokens = rest := by
  obtain ⟨next, between, hnext, hfound⟩ := bind_eq_ok h
  obtain ⟨-, rfl⟩ := peek_eq_ok hnext
  cases next <;> cases hfound <;> rfl

/-! ## Lists -/

theorem commaList_last {item : Reader α} {bound : Nat} {a : α} {pos : Position}
    (hitem : item tokens = .ok a (⟨.punct .rightParen, pos⟩ :: rest)) :
    commaList item (bound + 1) tokens = .ok [a] rest := by
  rw [commaList, bind_ok hitem, bind_ok (accept_miss (notNext_cons (by decide)))]
  exact bind_ok (punct_hit _ _ pos rest)

theorem commaList_more {item : Reader α} {bound : Nat} {a : α} {as : List α} {pos : Position}
    {ts : List Lexeme} (hitem : item tokens = .ok a (⟨.punct .comma, pos⟩ :: ts))
    (hothers : commaList item bound ts = .ok as rest) :
    commaList item (bound + 1) tokens = .ok (a :: as) rest := by
  rw [commaList, bind_ok hitem, bind_ok (accept_hit _ pos ts)]
  exact bind_ok hothers

theorem manyWhile_stop {more : Token → Bool} {item : Reader α} {bound : Nat}
    (h : ∀ l ∈ tokens.head?, more l.token = false) :
    manyWhile more item (bound + 1) tokens = .ok [] tokens := by
  rw [manyWhile, peek_bind]
  cases tokens with
  | nil => rfl
  | cons l rest =>
    show (if more l.token then _ else _ : Reader (List α)) (l :: rest) = _
    rw [h l rfl]
    rfl

theorem manyWhile_more {more : Token → Bool} {item : Reader α} {bound : Nat} {a : α} {as : List α}
    {l : Lexeme} {ts ts' : List Lexeme} (hl : more l.token = true)
    (hitem : item (l :: ts) = .ok a ts') (hothers : manyWhile more item bound ts' = .ok as rest) :
    manyWhile more item (bound + 1) (l :: ts) = .ok (a :: as) rest := by
  rw [manyWhile, peek_bind]
  show (if more l.token then _ else _ : Reader (List α)) (l :: ts) = _
  rw [if_pos hl, bind_ok hitem]
  exact bind_ok hothers

/-- Induction over the rounds of a list of items separated by commas. -/
theorem commaList_rec {item : Reader α} {M : List Lexeme → List α → List Lexeme → Prop}
    (hlast : ∀ {ts a pos rest}, item ts = .ok a (⟨.punct .rightParen, pos⟩ :: rest) → M ts [a] rest)
    (hmore : ∀ {ts a pos ts' as rest}, item ts = .ok a (⟨.punct .comma, pos⟩ :: ts') →
      M ts' as rest → M ts (a :: as) rest) :
    ∀ (bound : Nat) {tokens : List Lexeme} {as : List α} {rest : List Lexeme},
      commaList item bound tokens = .ok as rest → M tokens as rest
  | 0, _, _, _, h => nomatch h
  | bound + 1, tokens, as, rest, h => by
    obtain ⟨first, ts₁, hfirst, h₁⟩ := bind_eq_ok h
    obtain ⟨comma, ts₂, hcomma, h₂⟩ := bind_eq_ok h₁
    rcases accept_eq_ok hcomma with ⟨pos, rfl, rfl⟩ | ⟨rfl, rfl, -⟩
    · obtain ⟨others, ts₃, hothers, h₃⟩ := bind_eq_ok h₂
      cases h₃
      exact hmore hfirst (commaList_rec hlast hmore bound hothers)
    · obtain ⟨pos, ts₃, hparen, h₃⟩ := bind_eq_ok h₂
      cases h₃
      rw [punct_eq_ok hparen] at hfirst
      exact hlast hfirst

/-- A list in parentheses is empty or has items separated by commas. -/
theorem parenthesized_eq_ok {item : Reader α} {bound : Nat} {as : List α}
    (h : parenthesized item bound tokens = .ok as rest) :
    (∃ pos, as = [] ∧ tokens = ⟨.punct .rightParen, pos⟩ :: rest) ∨
      commaList item bound tokens = .ok as rest := by
  obtain ⟨found, ts₁, hparen, hfound⟩ := bind_eq_ok h
  rcases accept_eq_ok hparen with ⟨pos, rfl, rfl⟩ | ⟨rfl, rfl, -⟩
  · cases hfound
    exact .inl ⟨pos, rfl, rfl⟩
  · exact .inr hfound

/-- Induction over the rounds of a list that goes on while the next token satisfies `more`. -/
theorem manyWhile_rec {more : Token → Bool} {item : Reader α}
    {M : List Lexeme → List α → List Lexeme → Prop}
    (hnil : ∀ {ts}, (∀ l ∈ ts.head?, more l.token = false) → M ts [] ts)
    (hcons : ∀ {ts a ts' as rest}, item ts = .ok a ts' → M ts' as rest → M ts (a :: as) rest) :
    ∀ (bound : Nat) {tokens : List Lexeme} {as : List α} {rest : List Lexeme},
      manyWhile more item bound tokens = .ok as rest → M tokens as rest
  | 0, _, _, _, h => nomatch h
  | bound + 1, [], as, rest, h => by
    cases h
    exact hnil (by simp)
  | bound + 1, l :: tokens, as, rest, h => by
    rw [manyWhile, peek_bind] at h
    simp only [List.head?_cons, Option.map_some] at h
    cases hmore : more l.token with
    | true =>
      rw [hmore, if_pos rfl] at h
      obtain ⟨first, ts₁, hfirst, h₁⟩ := bind_eq_ok h
      obtain ⟨others, ts₂, hothers, h₂⟩ := bind_eq_ok h₁
      cases h₂
      exact hcons hfirst (manyWhile_rec hnil hcons bound hothers)
    | false =>
      rw [hmore] at h
      cases h
      exact hnil (by simpa using hmore)

end Reader

/-! ## Negative numbers -/

namespace Arithmetic

variable {arith : Arithmetic} {n negative : Int64}

/-- Only the least number has a negative that does not fit. -/
theorem toInt_neg_of_ne (hn : n ≠ Int64.minValue) : (-n).toInt = -n.toInt := by
  have hlow := n.le_toInt
  have hhigh := n.toInt_lt
  have hleast : n.toInt ≠ -2 ^ 63 := fun h => hn (Int64.toInt_inj.mp (h.trans Int64.toInt_minValue.symm))
  rw [Int64.toInt_neg, Int.bmod_eq_of_le (by omega) (by omega)]

theorem negate?_of_ne (arith : Arithmetic) (hn : n ≠ Int64.minValue) : arith.negate? n = some (-n) := by
  cases arith with
  | wrapping => rfl
  | checked => exact if_neg hn

theorem negate?_eq_none_iff : arith.negate? n = none ↔ arith = .checked ∧ n = Int64.minValue := by
  cases arith <;> simp [negate?]

/-- The result is the exact negative, except that the least number may wrap around to itself. -/
theorem negate?_eq_some_iff :
    arith.negate? n = some negative ↔ negative.toInt = -n.toInt ∨
      arith = .wrapping ∧ n = Int64.minValue ∧ negative = Int64.minValue := by
  by_cases hn : n = Int64.minValue
  · -- the exact negative is above all numbers
    have hexact : negative.toInt ≠ -n.toInt := by
      have hhigh := negative.toInt_lt
      rw [hn, Int64.toInt_minValue]
      omega
    have hwraps : -Int64.minValue = Int64.minValue := by decide
    subst hn
    rw [or_iff_right hexact]
    cases arith with
    | wrapping =>
      rw [negate?, hwraps, Option.some.injEq, eq_comm]
      simp
    | checked => simp [negate?]
  · rw [negate?_of_ne arith hn, Option.some.injEq, ← toInt_neg_of_ne hn, Int64.toInt_inj, eq_comm]
    simp [hn]

end Arithmetic

theorem Stmt.negatedLabel_of_some {arith : Arithmetic} {n negative : Int64}
    (h : arith.negate? n = some negative) (rest : List Lexeme) :
    Stmt.negatedLabel arith n rest = .ok (.int negative) rest := by
  rw [Stmt.negatedLabel, h]
  rfl

theorem Stmt.negatedLabel_of_none {arith : Arithmetic} {n : Int64} (h : arith.negate? n = none)
    (rest : List Lexeme) : Stmt.negatedLabel arith n rest = .overflow := by
  rw [Stmt.negatedLabel, h]
  rfl

/-! ## Whole token lists -/

/-- A bounded reader succeeds on a token list if it does with the bound that it is given there. -/
theorem Reader.read_eq_ok_iff {α : Type} {reader : Nat → Reader α} {tokens rest : List Lexeme} {a : α} :
    Reader.read reader tokens = .ok (a, rest) ↔ reader (tokens.length + 1) tokens = .ok a rest := by
  rw [Reader.read, Reader.read?]
  cases reader (tokens.length + 1) tokens <;> simp

theorem parseIn_eq_ok_iff {arith : Arithmetic} {tokens : List Lexeme} {p : Program} :
    parseIn arith tokens = some (.ok p) ↔
      ∃ rest, Program.reader arith (tokens.length + 1) tokens = .ok p rest := by
  rw [parseIn, Reader.read?]
  cases Program.reader arith (tokens.length + 1) tokens <;> simp [Except.map, eq_comm]

theorem parse_eq_ok_iff {tokens : List Lexeme} {p : Program} :
    parse tokens = .ok p ↔ parseIn .wrapping tokens = some (.ok p) := by
  rw [parseIn_eq_ok_iff, parse, Reader.read, Reader.read?]
  cases Program.reader .wrapping (tokens.length + 1) tokens <;> simp [Except.map, eq_comm]

end Primer
