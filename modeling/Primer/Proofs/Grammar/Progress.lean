import Primer.Proofs.Grammar.Arithmetic

/-!
# Reading makes progress and ends

A recursive reader comes back to itself behind a token that it has taken, and a loop goes on as long as
its body succeeds. Both end because a body that succeeds takes a token. The bounds of the readers are
there to make this recursion structural: a bound above the number of tokens is never used up, and all
such bounds give the same answer.

The one thing that keeps the parser from giving a result is checked arithmetic, where the least number
cannot be negated for a case label.

- `Phrase` lists the parts of the grammar that have a reader of their own, and `Loop` the loops of the
  readers. A loop has two bounds: that of its body, and the number of its rounds.
- `Phrase.progresses` is progress: a phrase that is read leaves a proper suffix of the tokens.
- `Phrase.prompt` and `Loop.prompt` put the lemmas about prompt readers together.
- `reading_progresses_and_ends` is the statement about all token lists, with and without an end marker.
-/

namespace Primer

open Reader

/-! ## Phrases and loops -/

/-- The parts of the grammar with a reader of their own. -/
inductive Phrase : Type → Type 1 where
  | expression : Phrase Expr
  /-- An expression of infix operators of the given precedences, loosest first. -/
  | ladder (levels : List Nat) : Phrase Expr
  | prefixed : Phrase Expr
  | primary : Phrase Expr
  | declaration : Phrase VarDecl
  | statement : Phrase Stmt
  | blockItem : Phrase Stmt
  /-- What stands in braces, and the closing brace. -/
  | block : Phrase (List Stmt)
  | parameter : Phrase Param
  /-- What stands in parentheses with commas in between, and the closing parenthesis. -/
  | list {α : Type} (element : Phrase α) : Phrase (List α)
  /-- A function or a global variable. -/
  | item : Phrase Item

/-- Reads prefix operators and what they apply to. -/
def Expr.operandReader (bound : Nat) : Reader Expr :=
  prefixed (primary (reader bound) bound) bound

/-- The reader of a phrase. -/
def Phrase.reader (arith : Arithmetic) : {α : Type} → Phrase α → (bound : Nat) → Reader α
  | _, .expression, bound => Expr.reader bound
  | _, .ladder levels, bound => Expr.ladder (Expr.operandReader bound) bound levels
  | _, .prefixed, bound => Expr.operandReader bound
  | _, .primary, bound => Expr.primary (Expr.reader bound) bound
  | _, .declaration, bound => VarDecl.reader bound
  | _, .statement, bound => Stmt.reader arith bound
  | _, .blockItem, bound => Stmt.itemReader arith bound
  | _, .block, bound => Stmt.blockTail (Stmt.itemReader arith bound) bound
  | _, .parameter, _ => Param.reader
  | _, .list element, bound => parenthesized (element.reader arith bound) bound
  | _, .item, bound => Item.reader arith bound

/-- The loops of the readers. -/
inductive Loop : Type → Type 1 where
  /-- The functions and globals of a program. -/
  | items : Loop (List Item)
  | blockItems : Loop (List Stmt)
  /-- The case groups of a `switch`. -/
  | caseGroups : Loop (List CaseGroup)
  /-- The statements of one case group. -/
  | caseBody : Loop (List Stmt)
  | commaList {α : Type} (element : Phrase α) : Loop (List α)
  /-- The operands behind `left` at one level of infix operators, over the tighter levels. -/
  | operands (level : Nat) (tighter : List Nat) (left : Expr) : Loop Expr

/-- A loop that runs at most the given number of rounds, with the given bound for its body. -/
def Loop.reader (arith : Arithmetic) : {α : Type} → Loop α → (bound rounds : Nat) → Reader α
  | _, .items, bound, rounds => manyWhile (fun t => t != .endOfInput) (Item.reader arith bound) rounds
  | _, .blockItems, bound, rounds => Stmt.blockTail (Stmt.itemReader arith bound) rounds
  | _, .caseGroups, bound, rounds => Stmt.groups arith (Stmt.reader arith bound) rounds
  | _, .caseBody, bound, rounds => manyWhile Stmt.inGroup (Stmt.reader arith bound) rounds
  | _, .commaList element, bound, rounds => Reader.commaList (element.reader arith bound) rounds
  | _, .operands level tighter left, bound, rounds =>
    Expr.chain level (Expr.ladder (Expr.operandReader bound) bound tighter) rounds left

/-! ## Progress -/

/-- What is left over when tokens are taken from the front, at least one. -/
def ProperSuffix (rest tokens : List Lexeme) : Prop :=
  rest <:+ tokens ∧ rest ≠ tokens

namespace ProperSuffix

variable {tokens between rest : List Lexeme}

theorem shorter (h : ProperSuffix rest tokens) : rest.length < tokens.length :=
  Nat.lt_of_le_of_ne h.1.length_le fun hlength => h.2 (h.1.eq_of_length hlength)

theorem of_shorter (h : rest <:+ tokens) (hlength : rest.length < tokens.length) :
    ProperSuffix rest tokens := by
  refine ⟨h, ?_⟩
  rintro rfl
  exact absurd hlength (Nat.lt_irrefl _)

theorem cons (l : Lexeme) (rest : List Lexeme) : ProperSuffix rest (l :: rest) :=
  .of_shorter (List.suffix_cons l rest) (Nat.lt_succ_self _)

/-- What is taken once is not given back. -/
theorem of_suffix (h : ProperSuffix between tokens) (hrest : rest <:+ between) :
    ProperSuffix rest tokens :=
  .of_shorter (hrest.trans h.1) (Nat.lt_of_le_of_lt hrest.length_le h.shorter)

theorem of_local {R : List Lexeme → List Lexeme → Prop} (h : Local R tokens rest)
    (hlength : rest.length < tokens.length) : ProperSuffix rest tokens := by
  obtain ⟨used, rfl, -, -⟩ := h
  exact .of_shorter (List.suffix_append used rest) hlength

end ProperSuffix

/-- A success leaves a proper suffix of the tokens. -/
def Reader.Progresses {α : Type} (r : Reader α) : Prop :=
  ∀ tokens a rest, r tokens = .ok a rest → ProperSuffix rest tokens

theorem Reader.Progresses.advances {α : Type} {r : Reader α} (h : r.Progresses) : r.Advances :=
  fun hok => (h _ _ _ hok).shorter

section Lists

variable {α : Type} {element : Reader α}

theorem Reader.commaList_progresses (helement : element.Progresses) (bound : Nat) :
    (commaList element bound).Progresses := by
  intro tokens as rest hok
  refine commaList_rec (M := fun ts _ rest => ProperSuffix rest ts) ?_ ?_ bound hok
  · exact fun hlast => (helement _ _ _ hlast).of_suffix (List.suffix_cons _ _)
  · exact fun hfirst hothers =>
      ((helement _ _ _ hfirst).of_suffix (List.suffix_cons _ _)).of_suffix hothers.1

theorem Reader.parenthesized_progresses (helement : element.Progresses) (bound : Nat) :
    (parenthesized element bound).Progresses := by
  intro tokens as rest hok
  rcases parenthesized_eq_ok hok with ⟨pos, rfl, rfl⟩ | hok
  · exact .cons _ _
  · exact commaList_progresses helement bound _ _ _ hok

end Lists

namespace Expr

variable {operand : Reader Expr}

theorem chain_suffix (level : Nat) (hoperand : operand.Progresses) {e : Expr} {rest : List Lexeme} :
    ∀ (bound : Nat) {left : Expr} {tokens : List Lexeme},
      chain level operand bound left tokens = .ok e rest → rest <:+ tokens
  | 0, _, _, hok => nomatch hok
  | bound + 1, left, tokens, hok => by
    obtain ⟨op, ts₁, hop, h₁⟩ := bind_eq_ok hok
    rcases take?_eq_ok hop with ⟨t, op, pos, rfl, rfl, -⟩ | ⟨rfl, rfl, -⟩
    · obtain ⟨right, ts₂, hright, h₂⟩ := bind_eq_ok h₁
      have hrest : rest <:+ ts₂ := chain_suffix level hoperand bound h₂
      exact (hrest.trans (hoperand _ _ _ hright).1).trans (List.suffix_cons _ _)
    · cases h₁
      exact List.suffix_refl _

/-- The first operand makes the progress, and a chain may be empty behind it. -/
theorem ladder_progresses (hoperand : operand.Progresses) (bound : Nat) :
    ∀ levels, (ladder operand bound levels).Progresses
  | [] => hoperand
  | level :: tighter => by
    have htighter := ladder_progresses hoperand bound tighter
    intro tokens e rest hok
    obtain ⟨left, ts₁, hleft, h₁⟩ := bind_eq_ok hok
    exact (htighter _ _ _ hleft).of_suffix (chain_suffix level htighter bound h₁)

theorem Takes.progresses {level : Nat} (h : Takes operand level) : operand.Progresses :=
  fun _ _ _ hok => .of_local (h hok).isLocal (h hok).shorter

theorem operandReader_progresses (bound : Nat) : (operandReader bound).Progresses :=
  Takes.progresses (prefixed_takes (primary_takes (reader_takes bound)) bound)

end Expr

variable {arith : Arithmetic}

namespace Stmt

theorem itemReader_progresses (bound : Nat) : (itemReader arith bound).Progresses := by
  intro tokens s rest hok
  rcases blockItem_reads (reader_takes bound) hok with ⟨d, pos, rfl, hd⟩ | hs
  · exact (ProperSuffix.of_local hd.isLocal hd.shorter).of_suffix (List.suffix_cons _ _)
  · exact .of_local hs.isLocal hs.shorter

theorem block_progresses (bound rounds : Nat) :
    (blockTail (itemReader arith bound) rounds).Progresses := by
  intro tokens body rest hok
  have hreads : Stmt.ItemsRead arith tokens body rest := blockTail_reads (reader_takes bound) rounds hok
  exact .of_local hreads.isLocal hreads.shorter

end Stmt

/-- A phrase that is read leaves a proper suffix of the tokens, whatever the bound. -/
theorem Phrase.progresses {α : Type} (phrase : Phrase α) (bound : Nat) :
    (phrase.reader arith bound).Progresses := by
  -- only a list holds another phrase; for the others this is what was shown of their readers
  induction phrase with
  | expression => exact Expr.Takes.progresses (Expr.reader_takes bound)
  | ladder levels => exact Expr.ladder_progresses (Expr.operandReader_progresses bound) bound levels
  | prefixed => exact Expr.operandReader_progresses bound
  | primary => exact Expr.Takes.progresses (Expr.primary_takes (Expr.reader_takes bound))
  | declaration =>
    intro tokens d rest hok
    have hreads := VarDecl.reader_reads hok
    exact .of_local hreads.isLocal hreads.shorter
  | statement =>
    intro tokens s rest hok
    have hreads := (Stmt.reader_takes bound hok).reads
    exact .of_local hreads.isLocal hreads.shorter
  | blockItem => exact Stmt.itemReader_progresses bound
  | block => exact Stmt.block_progresses bound bound
  | parameter =>
    intro tokens p rest hok
    have hreads := Param.reader_reads hok
    exact .of_local hreads.isLocal hreads.shorter
  | list element ih => exact parenthesized_progresses ih bound
  | item =>
    intro tokens i rest hok
    have hreads := Item.reader_reads hok
    exact .of_local hreads.isLocal hreads.shorter

/-! ## No bound is used up -/

theorem Expr.prompt_operandReader (b b' : Nat) :
    Prompt arith b (operandReader b) (operandReader b') := by
  have hprimary : Prompt arith b (primary (reader b) b) (primary (reader b') b') :=
    (prompt_primary (prompt_reader b b') (Nat.le_refl b) b').mono (Nat.le_succ b)
  exact prompt_prefixed hprimary (Nat.le_refl b) b'

theorem Stmt.prompt_itemReader (b b' : Nat) : Prompt arith b (itemReader arith b) (itemReader arith b') :=
  prompt_blockItem (prompt_reader b b') (Nat.le_refl b) b'

theorem Phrase.prompt {α : Type} (phrase : Phrase α) (b b' : Nat) :
    Prompt arith b (phrase.reader arith b) (phrase.reader arith b') := by
  induction phrase with
  | expression => exact Expr.prompt_reader b b'
  | ladder levels => exact Expr.prompt_ladder (Expr.prompt_operandReader b b') (Nat.le_refl b) b' levels
  | prefixed => exact Expr.prompt_operandReader b b'
  | primary =>
    exact (Expr.prompt_primary (Expr.prompt_reader b b') (Nat.le_refl b) b').mono (Nat.le_succ b)
  | declaration => exact VarDecl.prompt_reader (Nat.le_refl b) b'
  | statement => exact Stmt.prompt_reader b b'
  | blockItem => exact Stmt.prompt_itemReader b b'
  | block =>
    exact Stmt.prompt_blockTail (Stmt.prompt_itemReader b b')
      (Stmt.itemReader_progresses b).advances (Nat.le_refl b) b'
  | parameter => exact Param.prompt_reader
  | list element ih => exact prompt_parenthesized ih (Nat.le_refl b) b'
  | item => exact Item.prompt_reader b b'

/-- On fewer than `n` tokens, `n` rounds of a loop are enough. -/
theorem Loop.prompt {α : Type} {n bound rounds : Nat} (loop : Loop α) (hbound : n ≤ bound)
    (hrounds : n ≤ rounds) (bound' rounds' : Nat) :
    Prompt arith n (loop.reader arith bound rounds) (loop.reader arith bound' rounds') := by
  -- the body copes with the tokens, and each time it succeeds there are fewer of them
  have hbody : ∀ {β : Type} (phrase : Phrase β),
      Prompt arith n (phrase.reader arith bound) (phrase.reader arith bound') :=
    fun phrase => (phrase.prompt bound bound').mono hbound
  cases loop with
  | items =>
    exact prompt_manyWhile _ (hbody .item) (Phrase.item.progresses bound).advances hrounds rounds'
  | blockItems =>
    exact Stmt.prompt_blockTail (hbody .blockItem)
      (Stmt.itemReader_progresses bound).advances hrounds rounds'
  | caseGroups =>
    exact Stmt.prompt_groups (hbody .statement) (Stmt.reader_advances bound) hrounds rounds'
  | caseBody =>
    exact prompt_manyWhile _ (hbody .statement) (Stmt.reader_advances bound) hrounds rounds'
  | commaList element => exact prompt_commaList (hbody element) hrounds rounds'
  | operands level tighter left =>
    exact Expr.prompt_chain level (hbody (.ladder tighter)) hrounds rounds' left

/-- A reader that comes to an answer comes to that of all readers which are prompt for it. -/
theorem Reader.Prompt.eq_answer {α : Type} {n : Nat} {r s : Reader α} {tokens : List Lexeme}
    (hr : Prompt arith n r s) (hs : Prompt arith n s s) (htokens : tokens.length < n) :
    r tokens = s tokens :=
  ((hr.settled htokens).confirms.resolve_right (hs.ne_unfinished htokens)).symm

/-! ## The parser -/

/-- On every token list, with or without an end marker, and in either kind of arithmetic:

- a phrase that is read leaves a proper suffix of the tokens, whatever the bound;
- every phrase has an answer, which is the same for all bounds above the number of tokens;
- so has every loop, and no more rounds are needed than there are tokens, and one to see the end;
- and the parser gives the program or the error that its reader comes to with any such bound. There is
  neither exactly if, in checked arithmetic, the least number is to be negated, and never for the tokens
  of a text. -/
theorem reading_progresses_and_ends (arith : Arithmetic) (tokens : List Lexeme) :
    (∀ {α : Type} (phrase : Phrase α) (bound : Nat) (a : α) (rest : List Lexeme),
      phrase.reader arith bound tokens = .ok a rest → rest <:+ tokens ∧ rest ≠ tokens) ∧
    (∀ {α : Type} (phrase : Phrase α), ∃ answer, answer ≠ .unfinished ∧
      ∀ bound, tokens.length < bound → phrase.reader arith bound tokens = answer) ∧
    (∀ {α : Type} (loop : Loop α), ∃ answer, answer ≠ .unfinished ∧
      ∀ bound rounds, tokens.length < bound → tokens.length < rounds →
        loop.reader arith bound rounds tokens = answer) ∧
    ((∃ p rest, parseIn arith tokens = some (.ok p) ∧
      ∀ bound, tokens.length < bound → Program.reader arith bound tokens = .ok p rest) ∨
    (∃ e, parseIn arith tokens = some (.error e) ∧
      ∀ bound, tokens.length < bound → Program.reader arith bound tokens = .error e) ∨
    parseIn arith tokens = none) ∧
    (parseIn arith tokens = none ↔ arith = .checked ∧ NegatesLeast tokens) ∧
    ∀ source, tokenize source = .ok tokens → parseIn arith tokens = some (parse tokens) := by
  let n := tokens.length + 1
  have htokens : tokens.length < n := Nat.lt_succ_self _
  refine ⟨fun phrase bound => phrase.progresses bound tokens, fun phrase => ?_, fun loop => ?_, ?_,
    parseIn_eq_none_iff_negatesLeast, fun source hsource => parseIn_of_tokenize hsource arith⟩
  · have hn : Prompt arith n (phrase.reader arith n) (phrase.reader arith n) := phrase.prompt n n
    refine ⟨phrase.reader arith n tokens, hn.ne_unfinished htokens, fun bound hbound => ?_⟩
    exact ((phrase.prompt bound n).mono hbound).eq_answer hn htokens
  · have hn : Prompt arith n (loop.reader arith n n) (loop.reader arith n n) :=
      loop.prompt (Nat.le_refl n) (Nat.le_refl n) n n
    refine ⟨loop.reader arith n n tokens, hn.ne_unfinished htokens, fun bound rounds hbound hrounds => ?_⟩
    exact (loop.prompt hbound hrounds n n).eq_answer hn htokens
  · cases hparse : parseIn arith tokens with
    | none => exact .inr (.inr rfl)
    | some result =>
      cases result with
      | ok p =>
        obtain ⟨rest, hread⟩ := parseIn_eq_ok_iff.mp hparse
        exact .inl ⟨p, rest, rfl, fun bound hbound => (Program.reader_eq htokens hbound).trans hread⟩
      | error e => exact .inr (.inl ⟨e, rfl, fun bound hbound => (parseIn_eq_error_iff hbound).mp hparse⟩)

/-- The tokens of `Program p; int f() { switch (x) { case -n: } }`, where `n` is the least number. -/
def leastLabel : List Lexeme :=
  lexemesOf
    [.keyword .programWord, .identifier "p", .punct .semicolon, .keyword (.typeWord .int),
      .identifier "f", .punct .leftParen, .punct .rightParen, .punct .leftBrace, .keyword .switchWord,
      .punct .leftParen, .identifier "x", .punct .rightParen, .punct .leftBrace, .keyword .caseWord,
      .punct .minus, .integer Int64.minValue, .punct .colon, .punct .rightBrace, .punct .rightBrace,
      .endOfInput]

/-- In checked arithmetic these tokens get no result, and in wrapping arithmetic they are read. -/
theorem leastLabel_overflows :
    parseIn .checked leastLabel = none ∧ ∃ p, parseIn .wrapping leastLabel = some (.ok p) :=
  ⟨rfl, _, rfl⟩

/-- The tokens of `f(-1, x) ] case int`, which end without an end marker. -/
def strayTokens : List Lexeme :=
  [.name "f" ⟨1, 1⟩, Punct.leftParen.at ⟨1, 2⟩, Punct.minus.at ⟨1, 3⟩, ⟨.integer 1, ⟨1, 4⟩⟩,
    Punct.comma.at ⟨1, 5⟩, .name "x" ⟨1, 7⟩, Punct.rightParen.at ⟨1, 8⟩, Punct.rightBracket.at ⟨1, 10⟩,
    Keyword.caseWord.at ⟨1, 12⟩, (Keyword.typeWord .int).at ⟨1, 17⟩]

theorem strayTokens_progress :
    (∃ e rest, Expr.reader 11 strayTokens = .ok e rest ∧ rest.length = 3 ∧ rest <:+ strayTokens ∧
      rest ≠ strayTokens) ∧
    (∃ e, parseIn .checked strayTokens = some (.error e) ∧ ∀ bound, 10 < bound →
      Program.reader .checked bound strayTokens = .error e) ∧
    ∃ tokens, tokenize "Program p;" = .ok tokens ∧ parseIn .checked tokens = some (parse tokens) := by
  obtain ⟨hprogress, -, -, hparse, -⟩ := reading_progresses_and_ends .checked strayTokens
  refine ⟨⟨_, _, rfl, rfl, hprogress .expression 11 _ _ rfl⟩, ?_, ?_⟩
  · rcases hparse with ⟨p, rest, hok, -⟩ | ⟨e, herror, hreader⟩ | hnone
    · cases hok
    · exact ⟨e, herror, hreader⟩
    · cases hnone
  · have hok : (tokenize "Program p;").isOk = true := by decide +kernel
    cases htokens : tokenize "Program p;" with
    | error e =>
      rw [htokens] at hok
      cases hok
    | ok tokens =>
      obtain ⟨-, -, -, -, -, htext⟩ := reading_progresses_and_ends .checked tokens
      exact ⟨tokens, rfl, htext _ htokens⟩

end Primer
