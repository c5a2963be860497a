import Primer.Proofs.Grammar.Exact

/-!
# Readers settle their answer at the token that decides it

A reader looks at most one token ahead. So its answer is settled by the tokens it has taken and the
next one, and what stands behind them makes no difference. This holds of errors as well: all but one
kind are raised at the next token. The exception is an assignment to something that is not a variable,
which is refused once the assigned value is read. A reader breaks down in one place only, behind a minus
sign where it looks for the number of a case label.

A bounded reader is compared with itself under another bound, which may be too small for the other
tokens. `Reader.Confirms` allows for that.

- `Reader.BreaksDown` ties a refused end marker behind a minus sign to what a number in its place does.
- `Reader.Settled` describes an answer in this way, and has no case for `unfinished`.
- `Reader.Prompt n` says that on fewer than `n` tokens every answer is settled. There is one lemma for
  each way in which readers are put together, and `Reader.Prompt.rounds` is induction over the rounds
  of a bounded reader.
-/

namespace Primer

/-- An error that is raised at the token `l` for what it is. -/
def SyntaxError.RaisedAt (l : Lexeme) : SyntaxError → Prop
  | .unexpectedToken _ found pos => found = l.token ∧ pos = l.pos ∧ l.token ≠ .endOfInput
  | .unexpectedEnd _ pos => pos = l.pos ∧ l.token = .endOfInput
  | .declarationNotAllowed pos => pos = l.pos ∧ l.token.type?.isSome
  | .invalidTarget _ => False

theorem SyntaxError.RaisedAt.pos_eq {e : SyntaxError} {l : Lexeme} (h : e.RaisedAt l) :
    e.pos = l.pos := by
  cases e with
  | unexpectedToken expected found pos => exact h.2.1
  | unexpectedEnd expected pos => exact h.1
  | declarationNotAllowed pos => exact h.1
  | invalidTarget pos => exact h.elim

/-- Tokens behind which the same token is next begin with the same token. -/
theorem head?_append_congr {used after rest : List Lexeme} (h : after.head? = rest.head?) :
    (used ++ after).head? = (used ++ rest).head? := by
  rw [List.head?_append, List.head?_append, h]

/-- What stands behind a token makes no difference for the first one. -/
theorem head?_append_of_ne_nil {front after rest : List Lexeme} (h : front ≠ []) :
    (front ++ after).head? = (front ++ rest).head? := by
  cases front with
  | nil => exact absurd rfl h
  | cons l front => rfl

namespace Reader

variable {arith : Arithmetic} {α β : Type} {n n' : Nat} {ts : List Lexeme}

/-! ## Settled answers -/

/-- The reader comes to this answer, unless its bound is too small. -/
def Confirms (s : Reader α) (ts : List Lexeme) (answer : Reading α) : Prop :=
  s ts = answer ∨ s ts = .unfinished

theorem Confirms.bind {s : Reader α} {f : α → Reader β} {a : α} {rest : List Lexeme}
    {answer : Reading β} (hs : s.Confirms ts (.ok a rest)) (hf : (f a).Confirms rest answer) :
    Confirms (s >>= f) ts answer := by
  rcases hs with hs | hs
  · rw [Confirms, bind_ok hs]
    exact hf
  · exact .inr (by rw [bind_apply, hs])

theorem Confirms.bind_error {s : Reader α} {f : α → Reader β} {e : SyntaxError}
    (hs : s.Confirms ts (.error e)) : Confirms (s >>= f) ts (.error e) := by
  rcases hs with hs | hs
  · exact .inl (by rw [bind_apply, hs])
  · exact .inr (by rw [bind_apply, hs])

theorem Confirms.bind_overflow {s : Reader α} {f : α → Reader β} (hs : s.Confirms ts .overflow) :
    Confirms (s >>= f) ts .overflow := by
  rcases hs with hs | hs
  · exact .inl (by rw [bind_apply, hs])
  · exact .inr (by rw [bind_apply, hs])

/-- If the error is about the number that has to follow the minus sign at the end of `front`, then the
reader breaks down over a number there whose negative does not fit. -/
def BreaksDown (arith : Arithmetic) (s : Reader α) (front : List Lexeme) (e : SyntaxError) : Prop :=
  ∀ pos, e = .unexpectedEnd .integerAfterMinus pos → front ≠ [] ∧
    ∀ (n : Int64) (pos' : Position) (after : List Lexeme), arith.negate? n = none →
      s.Confirms (front ++ ⟨.integer n, pos'⟩ :: after) .overflow

theorem BreaksDown.imp {s : Reader α} {s' : Reader β} {front front' : List Lexeme} {e : SyntaxError}
    (h : BreaksDown arith s front e) (hfront : front ≠ [] → front' ≠ [])
    (hs : front ≠ [] → ∀ after, s.Confirms (front ++ after) .overflow →
      s'.Confirms (front' ++ after) .overflow) : BreaksDown arith s' front' e := by
  intro pos he
  obtain ⟨hne, hbreaks⟩ := h pos he
  exact ⟨hfront hne, fun n pos' after hn => hs hne _ (hbreaks n pos' after hn)⟩

/-- The answer to `ts` is settled by the tokens that were looked at: the reader `s` confirms it for
all tokens that begin with these. -/
inductive Settled (arith : Arithmetic) (s : Reader α) (ts : List Lexeme) : Reading α → Prop
  /-- Tokens were taken, and the token behind them was looked at. -/
  | ok {a : α} {used rest : List Lexeme} (split : ts = used ++ rest) (noEnd : NoEnd used)
    (again : ∀ after, after.head? = rest.head? → s.Confirms (used ++ after) (.ok a after)) :
    Settled arith s ts (.ok a rest)
  /-- The token `l` was refused. -/
  | raised {e : SyntaxError} {front after : List Lexeme} {l : Lexeme}
    (split : ts = front ++ l :: after) (noEnd : NoEnd front) (raisedAt : e.RaisedAt l)
    (again : ∀ after, s.Confirms (front ++ l :: after) (.error e))
    (breaks : BreaksDown arith s front e) : Settled arith s ts (.error e)
  /-- All tokens were taken, and there was no next one. -/
  | ranOut {expected : Expected} (noEnd : NoEnd ts)
    (again : s.Confirms ts (.error (.unexpectedEnd expected .start))) :
    Settled arith s ts (.error (.unexpectedEnd expected .start))
  /-- There was an equals sign with something else than a variable on its left. -/
  | badTarget {l : Lexeme} (mem : l ∈ ts) (equals : l.token = .punct .equals)
    (again : s.Confirms ts (.error (.invalidTarget l.pos))) :
    Settled arith s ts (.error (.invalidTarget l.pos))
  /-- The number behind a minus sign was negated, and the result did not fit. In place of the number, an
  end marker would have been refused. -/
  | overflow {front after : List Lexeme} {minus number : Lexeme} {n : Int64}
    (split : ts = front ++ minus :: number :: after) (noEnd : NoEnd front)
    (isMinus : minus.token = .punct .minus) (isNumber : number.token = .integer n)
    (unfit : arith.negate? n = none) (again : s.Confirms ts .overflow)
    (asks : ∀ pos, s.Confirms (front ++ [minus, ⟨.endOfInput, pos⟩])
      (.error (.unexpectedEnd .integerAfterMinus pos))) :
    Settled arith s ts .overflow

namespace Settled

variable {s s' : Reader α} {answer : Reading α} {l : Lexeme}

/-- The same tokens get the same answer. -/
theorem confirms (h : Settled arith s ts answer) : s.Confirms ts answer := by
  cases h with
  | ok split noEnd again => exact split ▸ again _ rfl
  | raised split noEnd raisedAt again breaks => exact split ▸ again _
  | ranOut noEnd again => exact again
  | badTarget mem equals again => exact again
  | overflow split noEnd isMinus isNumber unfit again asks => exact again

/-- A reader that was given no bound confirms everything. -/
theorem of_unfinished (h : Settled arith s ts answer) (hs : s' = unfinished) :
    Settled arith s' ts answer := by
  subst hs
  cases h with
  | ok split noEnd again => exact .ok split noEnd fun _ _ => .inr rfl
  | raised split noEnd raisedAt again breaks =>
    exact .raised split noEnd raisedAt (fun _ => .inr rfl) (breaks.imp id fun _ _ _ => .inr rfl)
  | ranOut noEnd again => exact .ranOut noEnd (.inr rfl)
  | badTarget mem equals again => exact .badTarget mem equals (.inr rfl)
  | overflow split noEnd isMinus isNumber unfit again asks =>
    exact .overflow split noEnd isMinus isNumber unfit (.inr rfl) fun _ => .inr rfl

/-- Readers that agree on all tokens with the same next token can stand for each other. -/
theorem of_head (h : Settled arith s ts answer) (hs : ∀ ts', ts'.head? = ts.head? → s' ts' = s ts') :
    Settled arith s' ts answer := by
  have hconfirms : ∀ {ts' answer'}, ts'.head? = ts.head? → s.Confirms ts' answer' →
      s'.Confirms ts' answer' := by
    intro ts' answer' hhead hconfirms
    rwa [Confirms, hs ts' hhead]
  cases h with
  | ok split noEnd again =>
    subst split
    exact .ok rfl noEnd fun after hafter => hconfirms (head?_append_congr hafter) (again after hafter)
  | raised split noEnd raisedAt again breaks =>
    subst split
    refine .raised rfl noEnd raisedAt
      (fun after => hconfirms (head?_append_congr rfl) (again after)) (breaks.imp id ?_)
    intro hne after
    exact hconfirms (head?_append_of_ne_nil hne)
  | ranOut noEnd again => exact .ranOut noEnd (hconfirms rfl again)
  | badTarget mem equals again => exact .badTarget mem equals (hconfirms rfl again)
  | overflow split noEnd isMinus isNumber unfit again asks =>
    subst split
    exact .overflow rfl noEnd isMinus isNumber unfit (hconfirms rfl again) fun pos =>
      hconfirms (head?_append_congr rfl) (asks pos)

/-- One more token in front, which is taken first. -/
theorem cons (h : Settled arith s ts answer) (hl : l.token ≠ .endOfInput)
    (hs : ∀ ts', s' (l :: ts') = s ts') : Settled arith s' (l :: ts) answer := by
  have hconfirms : ∀ {ts' answer'}, s.Confirms ts' answer' → s'.Confirms (l :: ts') answer' := by
    intro ts' answer' hconfirms
    rwa [Confirms, hs]
  cases h with
  | @ok a used rest split noEnd again =>
    have hsplit : l :: ts = (l :: used) ++ rest := by rw [split, List.cons_append]
    exact .ok hsplit (noEnd_cons.mpr ⟨hl, noEnd⟩) fun after hafter => hconfirms (again after hafter)
  | @raised e front after l' split noEnd raisedAt again breaks =>
    have hsplit : l :: ts = (l :: front) ++ l' :: after := by rw [split, List.cons_append]
    exact .raised hsplit (noEnd_cons.mpr ⟨hl, noEnd⟩) raisedAt (fun after => hconfirms (again after))
      (breaks.imp (fun _ => List.cons_ne_nil _ _) fun _ _ => hconfirms)
  | ranOut noEnd again => exact .ranOut (noEnd_cons.mpr ⟨hl, noEnd⟩) (hconfirms again)
  | badTarget mem equals again =>
    exact .badTarget (List.mem_cons_of_mem _ mem) equals (hconfirms again)
  | @overflow front after minus number n split noEnd isMinus isNumber unfit again asks =>
    have hsplit : l :: ts = (l :: front) ++ minus :: number :: after := by rw [split, List.cons_append]
    exact .overflow hsplit (noEnd_cons.mpr ⟨hl, noEnd⟩) isMinus isNumber unfit (hconfirms again)
      fun pos => hconfirms (asks pos)

/-- An error ends a reader put together of two. -/
theorem bind_error {f : α → Reader β} {e : SyntaxError} (h : Settled arith s ts (.error e)) :
    Settled arith (s >>= f) ts (.error e) := by
  cases h with
  | raised split noEnd raisedAt again breaks =>
    exact .raised split noEnd raisedAt (fun after => (again after).bind_error)
      (breaks.imp id fun _ _ => .bind_overflow)
  | ranOut noEnd again => exact .ranOut noEnd again.bind_error
  | badTarget mem equals again => exact .badTarget mem equals again.bind_error

/-- So does breaking down. -/
theorem bind_overflow {f : α → Reader β} (h : Settled arith s ts .overflow) :
    Settled arith (s >>= f) ts .overflow := by
  cases h with
  | overflow split noEnd isMinus isNumber unfit again asks =>
    exact .overflow split noEnd isMinus isNumber unfit again.bind_overflow fun pos => (asks pos).bind_error

/-- What was taken, and behind it what a second reader answers. -/
theorem bind_ok {f : α → Reader β} {a : α} {used rest : List Lexeme} {answer : Reading β}
    (split : ts = used ++ rest) (noEnd : NoEnd used)
    (again : ∀ after, after.head? = rest.head? → s.Confirms (used ++ after) (.ok a after))
    (h : Settled arith (f a) rest answer) : Settled arith (s >>= f) ts answer := by
  subst split
  cases h with
  | @ok b used' rest' split' noEnd' again' =>
    subst split'
    refine .ok (List.append_assoc used used' rest').symm (noEnd_append.mpr ⟨noEnd, noEnd'⟩) ?_
    -- the first part is confirmed with the tokens of the second one behind it, which start alike
    intro after hafter
    rw [List.append_assoc]
    exact (again _ (head?_append_congr hafter)).bind (again' after hafter)
  | @raised e front after l split' noEnd' raisedAt again' breaks =>
    subst split'
    refine .raised (List.append_assoc used front (l :: after)).symm
      (noEnd_append.mpr ⟨noEnd, noEnd'⟩) raisedAt ?_ (breaks.imp ?_ ?_)
    · intro after'
      have hhead : (front ++ l :: after').head? = (front ++ l :: after).head? := head?_append_congr rfl
      rw [List.append_assoc]
      exact (again _ hhead).bind (again' after')
    · exact List.append_ne_nil_of_right_ne_nil used
    · intro hne after' hbreaks
      rw [List.append_assoc]
      exact (again _ (head?_append_of_ne_nil hne)).bind hbreaks
  | ranOut noEnd' again' =>
    exact .ranOut (noEnd_append.mpr ⟨noEnd, noEnd'⟩) ((again _ rfl).bind again')
  | badTarget mem equals again' =>
    exact .badTarget (List.mem_append_right _ mem) equals ((again _ rfl).bind again')
  | @overflow front after minus number n split' noEnd' isMinus isNumber unfit again' asks =>
    subst split'
    refine .overflow (List.append_assoc used front _).symm (noEnd_append.mpr ⟨noEnd, noEnd'⟩) isMinus
      isNumber unfit ((again _ rfl).bind again') ?_
    intro pos
    have hhead : (front ++ [minus, ⟨.endOfInput, pos⟩]).head? =
        (front ++ minus :: number :: after).head? := head?_append_congr rfl
    rw [List.append_assoc]
    exact (again _ hhead).bind (asks pos)

end Settled

/-! ## Prompt readers -/

/-- The answers of `r` to fewer than `n` tokens, of which the first is `next`, are settled for `s`. -/
def PromptOn (arith : Arithmetic) (next : Option Lexeme) (n : Nat) (r s : Reader α) : Prop :=
  ∀ ts : List Lexeme, ts.head? = next → ts.length < n → Settled arith s ts (r ts)

/-- The answers of `r` to fewer than `n` tokens are settled for `s`. -/
def Prompt (arith : Arithmetic) (n : Nat) (r s : Reader α) : Prop :=
  ∀ next, PromptOn arith next n r s

/-- The reader takes a token whenever it succeeds. -/
def Advances (r : Reader α) : Prop :=
  ∀ {ts a rest}, r ts = .ok a rest → rest.length < ts.length

theorem Prompt.settled {r s : Reader α} (h : Prompt arith n r s) (hts : ts.length < n) :
    Settled arith s ts (r ts) :=
  h ts.head? ts rfl hts

/-- The bound is never used up. -/
theorem Prompt.ne_unfinished {r s : Reader α} (h : Prompt arith n r s) (hts : ts.length < n) :
    r ts ≠ .unfinished := by
  intro hunfinished
  have hsettled := h.settled hts
  rw [hunfinished] at hsettled
  cases hsettled

/-- Where results wrap around, nothing breaks down. -/
theorem Prompt.ne_overflow {r s : Reader α} (h : Prompt .wrapping n r s) (hts : ts.length < n) :
    r ts ≠ .overflow := by
  intro hoverflow
  have hsettled := h.settled hts
  rw [hoverflow] at hsettled
  cases hsettled with
  | overflow split noEnd isMinus isNumber unfit again asks => cases unfit

theorem Prompt.mono {r s : Reader α} (h : Prompt arith n r s) (hn : n' ≤ n) : Prompt arith n' r s :=
  fun next ts hnext hts => h next ts hnext (Nat.lt_of_lt_of_le hts hn)

/-- Two readers in a row, with `n'` bounding the tokens that the first one leaves over. -/
theorem Settled.bind {r s : Reader α} {f g : α → Reader β} (hr : Settled arith s ts (r ts))
    (hrest : ∀ {a rest}, r ts = .ok a rest → rest.length < n') (hf : ∀ a, Prompt arith n' (f a) (g a)) :
    Settled arith (s >>= g) ts ((r >>= f) ts) := by
  rw [bind_apply]
  cases hts : r ts with
  | ok a rest =>
    rw [hts] at hr
    cases hr with
    | ok split noEnd again =>
      exact Settled.bind_ok split noEnd again ((hf a).settled (hrest hts))
  | error e =>
    rw [hts] at hr
    exact hr.bind_error
  | overflow =>
    rw [hts] at hr
    exact hr.bind_overflow
  | unfinished =>
    rw [hts] at hr
    cases hr

/-- What a settled reader leaves over is not longer than its tokens. -/
theorem Settled.length_le {s : Reader α} {a : α} {rest : List Lexeme}
    (h : Settled arith s ts (.ok a rest)) : rest.length ≤ ts.length := by
  cases h with
  | ok split noEnd again => simp [split]

section Composition

variable {r s : Reader α} {f g : α → Reader β}

theorem Prompt.bind (hr : Prompt arith n r s) (hf : ∀ a, Prompt arith n (f a) (g a)) :
    Prompt arith n (r >>= f) (s >>= g) := by
  intro next ts _ hts
  have hsettled := hr.settled hts
  refine hsettled.bind (fun hok => ?_) hf
  rw [hok] at hsettled
  exact Nat.lt_of_le_of_lt hsettled.length_le hts

/-- Behind a reader that takes a token there is one token less. -/
theorem Prompt.next (hr : Prompt arith (n + 1) r s) (hadvances : r.Advances)
    (hf : ∀ a, Prompt arith n (f a) (g a)) : Prompt arith (n + 1) (r >>= f) (s >>= g) := by
  intro next ts _ hts
  refine (hr.settled hts).bind (fun hok => ?_) hf
  have := hadvances hok
  omega

/-- Induction over the rounds of bounded readers with an argument. Each round takes a token, so a bound
of `n` is enough for fewer than `n` tokens. -/
theorem Prompt.roundsWith {ι : Type} {r s : Nat → ι → Reader α} (hzero : ∀ i, s 0 i = unfinished)
    (hsucc : ∀ {k b b'}, k < n → k ≤ b → (∀ i, Prompt arith k (r b i) (s b' i)) →
      ∀ i, Prompt arith (k + 1) (r (b + 1) i) (s (b' + 1) i)) :
    ∀ {b : Nat} (b' : Nat), n ≤ b → ∀ i, Prompt arith n (r b i) (s b' i) := by
  suffices ∀ k ≤ n, ∀ b b', k ≤ b → ∀ i, Prompt arith k (r b i) (s b' i) from
    fun {b} b' hb i => this n (Nat.le_refl n) b b' hb i
  intro k
  induction k with
  | zero => exact fun _ _ _ _ _ _ ts _ hts => absurd hts (Nat.not_lt_zero _)
  | succ k ih =>
    intro hk b b' hb i
    obtain ⟨b, rfl⟩ : ∃ c, b = c + 1 := ⟨b - 1, by omega⟩
    have hround := fun c => hsucc hk (Nat.le_of_succ_le_succ hb)
      (fun i => ih (Nat.le_of_succ_le hk) b c (Nat.le_of_succ_le_succ hb) i) i
    cases b' with
    | zero => exact fun next ts hnext hts => (hround 0 next ts hnext hts).of_unfinished (hzero i)
    | succ b' => exact hround b'

/-- Induction over the rounds of a bounded reader. -/
theorem Prompt.rounds {r s : Nat → Reader α} (hzero : s 0 = unfinished)
    (hsucc : ∀ {k b b'}, k < n → k ≤ b → Prompt arith k (r b) (s b') →
      Prompt arith (k + 1) (r (b + 1)) (s (b' + 1))) {b : Nat} (b' : Nat) (hb : n ≤ b) :
    Prompt arith n (r b) (s b') :=
  Prompt.roundsWith (ι := Unit) (r := fun b _ => r b) (s := fun b _ => s b) (fun _ => hzero)
    (fun hk hkb ih _ => hsucc hk hkb (ih ())) b' hb ()

end Composition

/-! ## Single tokens -/

theorem prompt_pure (a : α) : Prompt arith n (pure a) (pure a) :=
  fun _ _ _ _ => .ok rfl noEnd_nil fun _ _ => .inl rfl

theorem raisedAt_unexpected (expected : Expected) (l : Lexeme) (rest : List Lexeme) :
    (unexpected expected (l :: rest)).RaisedAt l := by
  by_cases hend : l.token = .endOfInput
  · rw [unexpected, if_pos hend]
    exact ⟨rfl, hend⟩
  · rw [unexpected, if_neg hend]
    exact ⟨rfl, rfl, hend⟩

theorem unexpected_ne_end {expected expected' : Expected} (h : expected ≠ expected') (l : Lexeme)
    (rest : List Lexeme) (pos : Position) :
    unexpected expected (l :: rest) ≠ .unexpectedEnd expected' pos := by
  rw [unexpected]
  split
  · exact fun he => h (SyntaxError.unexpectedEnd.inj he).1
  · exact fun he => nomatch he

/-- Refusing the next token. The number behind a minus sign is treated together with the sign. -/
theorem prompt_reject (expected : Expected) (hexpected : expected ≠ .integerAfterMinus) :
    Prompt arith n (reject expected : Reader α) (reject expected) := by
  intro next ts _ _
  cases ts with
  | nil => exact .ranOut noEnd_nil (.inl rfl)
  | cons l rest =>
    exact .raised rfl noEnd_nil (raisedAt_unexpected expected l rest) (fun _ => .inl rfl)
      fun pos he => absurd he (unexpected_ne_end hexpected l rest pos)

section Choice

variable {choose : Token → Option α}

/-- A choice between taking the next token and leaving it. In the first case one token less is
left. -/
theorem Prompt.take? (hend : choose .endOfInput = none) {f g : Option (α × Position) → Reader β}
    (hsome : ∀ found, Prompt arith n (f (some found)) (g (some found)))
    (hnone : Prompt arith (n + 1) (f none) (g none)) :
    Prompt arith (n + 1) (Reader.take? choose >>= f) (Reader.take? choose >>= g) := by
  intro next ts hnext hts
  -- either the next token is left, and the answer depends on it through its head only, or it is taken
  by_cases hchoose : ∀ l ∈ ts.head?, choose l.token = none
  · rw [bind_ok (take?_none hchoose)]
    refine (hnone.settled hts).of_head fun ts' hhead => bind_ok (take?_none ?_)
    rwa [hhead]
  · rcases ts with _ | ⟨l, ts⟩
    · exact absurd (fun l hl => nomatch hl) hchoose
    · obtain ⟨a, ha⟩ : ∃ a, choose l.token = some a := by
        rw [← Option.isSome_iff_exists, ← Option.ne_none_iff_isSome]
        exact fun hnone => hchoose (by simpa using hnone)
      have htake : ∀ {γ : Type} (k : Option (α × Position) → Reader γ) ts',
          (Reader.take? choose >>= k) (l :: ts') = k (some (a, l.pos)) ts' :=
        fun k ts' => bind_ok (take?_some ha l.pos ts')
      -- the end marker is never taken, so a token that is taken may be put in front of what is settled
      have hl : l.token ≠ .endOfInput := by
        intro hl
        rw [hl, hend] at ha
        cases ha
      rw [htake]
      exact ((hsome _).settled (Nat.lt_of_succ_lt_succ hts)).cons hl (htake g)

theorem prompt_take? (hend : choose .endOfInput = none) :
    Prompt arith n (take? choose) (take? choose) := by
  have hsucc : Prompt arith (n + 1) (take? choose >>= pure) (take? choose >>= pure) :=
    .take? hend (fun _ => prompt_pure _) (prompt_pure _)
  have hpure : take? choose >>= pure = take? choose := by
    funext ts
    rw [bind_apply]
    cases take? choose ts <;> rfl
  rw [hpure] at hsucc
  exact hsucc.mono (Nat.le_succ n)

theorem prompt_take (hend : choose .endOfInput = none) (expected : Expected)
    (hexpected : expected ≠ .integerAfterMinus) :
    Prompt arith n (take choose expected) (take choose expected) := by
  refine (prompt_take? hend).bind fun found => ?_
  cases found with
  | none => exact prompt_reject expected hexpected
  | some found => exact prompt_pure found

end Choice

theorem prompt_accept {t : Token} (ht : t ≠ .endOfInput) : Prompt arith n (accept t) (accept t) := by
  refine (prompt_take? (if_neg ht.symm)).bind fun found => ?_
  cases found with
  | none => exact prompt_pure none
  | some found => exact prompt_pure _

/-- A choice between taking the token `t` and going on without it. -/
theorem Prompt.accept {t : Token} (ht : t ≠ .endOfInput) {f g : Option Position → Reader β}
    (hsome : ∀ pos, Prompt arith n (f (some pos)) (g (some pos)))
    (hnone : Prompt arith (n + 1) (f none) (g none)) :
    Prompt arith (n + 1) (Reader.accept t >>= f) (Reader.accept t >>= g) := by
  have hassoc : ∀ k : Option Position → Reader β, Reader.accept t >>= k =
      Reader.take? (fun u => if u = t then some () else none) >>=
        fun found => k (found.map Prod.snd) := by
    intro k
    funext ts
    rw [Reader.accept, bind_apply, bind_apply, bind_apply]
    cases Reader.take? (fun u => if u = t then some () else none) ts with
    | ok found rest => cases found <;> rfl
    | error e => rfl
    | overflow => rfl
    | unfinished => rfl
  rw [hassoc, hassoc]
  exact .take? (if_neg ht.symm) (fun found => hsome found.2) hnone

theorem prompt_expect {t : Token} (ht : t ≠ .endOfInput) (expected : Expected)
    (hexpected : expected ≠ .integerAfterMinus) :
    Prompt arith n (expect t expected) (expect t expected) := by
  refine (prompt_accept ht).bind fun found => ?_
  cases found with
  | none => exact prompt_reject expected hexpected
  | some pos => exact prompt_pure pos

theorem prompt_punct {p : Punct} (expected : Expected) (hexpected : expected ≠ .integerAfterMinus) :
    Prompt arith n (punct p expected) (punct p expected) :=
  prompt_expect (by rintro ⟨⟩) expected hexpected

theorem prompt_identifier (expected : Expected) (hexpected : expected ≠ .integerAfterMinus) :
    Prompt arith n (identifier expected) (identifier expected) :=
  prompt_take rfl expected hexpected

theorem prompt_typeName : Prompt arith n typeName typeName :=
  prompt_take rfl .type nofun

theorem prompt_peek : Prompt arith n peek peek := by
  intro next ts _ _
  refine .ok rfl noEnd_nil fun after hafter => .inl ?_
  show Reading.ok (after.head?.map Lexeme.token) after = _
  rw [hafter]

theorem prompt_atType : Prompt arith n atType atType := by
  refine prompt_peek.bind fun next => ?_
  cases next with
  | none => exact prompt_pure _
  | some t => exact prompt_pure _

/-! ## The next token is known -/

section Next

variable {next : Option Lexeme} {l : Lexeme}

theorem PromptOn.peek {f g : Option Token → Reader α}
    (h : PromptOn arith next n (f (next.map Lexeme.token)) (g (next.map Lexeme.token))) :
    PromptOn arith next n (Reader.peek >>= f) (Reader.peek >>= g) := by
  intro ts hnext hts
  subst hnext
  refine (h ts rfl hts).of_head fun ts' hhead => ?_
  rw [peek_bind, hhead]

theorem PromptOn.here {f g : Position → Reader α}
    (h : PromptOn arith next n (f ((next.map Lexeme.pos).getD .start))
      (g ((next.map Lexeme.pos).getD .start))) :
    PromptOn arith next n (Reader.here >>= f) (Reader.here >>= g) := by
  intro ts hnext hts
  subst hnext
  refine (h ts rfl hts).of_head fun ts' hhead => ?_
  rw [here_bind, hhead]

theorem PromptOn.skip {f g : Unit → Reader α} (hl : l.token ≠ .endOfInput)
    (h : Prompt arith n (f ()) (g ())) :
    PromptOn arith (some l) (n + 1) (Reader.skip >>= f) (Reader.skip >>= g) := by
  intro ts hnext hts
  rcases ts with _ | ⟨l', ts⟩
  · cases hnext
  · cases hnext
    exact (h.settled (Nat.lt_of_succ_lt_succ hts)).cons hl fun _ => rfl

theorem promptOn_reject (expected : Expected) (hexpected : expected ≠ .integerAfterMinus) :
    PromptOn arith next n (reject expected : Reader α) (reject expected) :=
  prompt_reject expected hexpected next

/-- Giving up at a token that is known. -/
theorem promptOn_fail {e : SyntaxError} (he : e.RaisedAt l)
    (hother : ∀ pos, e ≠ .unexpectedEnd .integerAfterMinus pos) :
    PromptOn arith (some l) n (fail e : Reader α) (fail e) := by
  intro ts hnext hts
  rcases ts with _ | ⟨l', ts⟩
  · cases hnext
  · cases hnext
    exact .raised rfl noEnd_nil he (fun _ => .inl rfl) fun pos h => absurd h (hother pos)

end Next

/-! ## Repetition -/

section Repetition

variable {item item' : Reader α} {b : Nat}

theorem prompt_commaList (hitem : Prompt arith n item item') (hb : n ≤ b) (b' : Nat) :
    Prompt arith n (commaList item b) (commaList item' b') := by
  refine Prompt.rounds rfl (fun hk _ ih => ?_) b' hb
  refine (hitem.mono hk).bind fun first => ?_
  refine .accept (by decide) (fun pos => ?_) ?_
  · exact ih.bind fun others => prompt_pure _
  · exact (prompt_punct .commaOrParen nofun).bind fun _ => prompt_pure _

theorem prompt_parenthesized (hitem : Prompt arith n item item') (hb : n ≤ b) (b' : Nat) :
    Prompt arith n (parenthesized item b) (parenthesized item' b') := by
  refine (prompt_accept (by decide)).bind fun paren => ?_
  cases paren with
  | none => exact prompt_commaList hitem hb b'
  | some pos => exact prompt_pure _

theorem prompt_manyWhile (more : Token → Bool) (hitem : Prompt arith n item item')
    (hadvances : item.Advances) (hb : n ≤ b) (b' : Nat) :
    Prompt arith n (manyWhile more item b) (manyWhile more item' b') := by
  refine Prompt.rounds rfl (fun hk _ ih => ?_) b' hb
  refine prompt_peek.bind fun next => ?_
  cases next with
  | none => exact prompt_pure _
  | some t =>
    show Prompt arith _ (if more t then _ else _) (if more t then _ else _)
    cases more t with
    | true =>
      refine (hitem.mono hk).next hadvances fun first => ?_
      exact ih.bind fun others => prompt_pure _
    | false => exact prompt_pure _

end Repetition

end Reader

end Primer
