import Primer.Proofs.Grammar.Failure
import Primer.Proofs.Token.Lexable

/-!
# The arithmetic of the readers

Of all readers only that of case labels computes with numbers. So in any arithmetic the readers come to
the answer that they come to where results wrap around, unless they break down. Texts hold no number that
they could break down over.

- `Reader.Alike` relates a reader to the one in wrapping arithmetic. There is one lemma for each reader
  that a case label can be part of.
- `parseIn_cases`: the parser gives the answer of `parse`, or none.
- `NegatesLeast` says that the least number stands where it is to be negated, and
  `parseIn_eq_none_iff_negatesLeast` that the parser breaks down exactly over these.
- `parseIn_of_tokenize`: for the tokens of a text it gives the answer of `parse`.
-/

namespace Primer

namespace Reader

variable {α β : Type}

/-- The first reader answers like the second one, unless it breaks down. -/
def Alike (x y : Reader α) : Prop :=
  ∀ ts, x ts = y ts ∨ x ts = .overflow

theorem Alike.refl (x : Reader α) : Alike x x :=
  fun _ => .inl rfl

theorem Alike.bind {x y : Reader α} {f g : α → Reader β} (hx : Alike x y) (hf : ∀ a, Alike (f a) (g a)) :
    Alike (x >>= f) (y >>= g) := by
  intro ts
  rw [bind_apply, bind_apply]
  rcases hx ts with h | h
  · rw [h]
    cases y ts with
    | ok a rest => exact hf a rest
    | error e => exact .inl rfl
    | overflow => exact .inl rfl
    | unfinished => exact .inl rfl
  · rw [h]
    exact .inr rfl

/-- Only what follows may differ. -/
theorem Alike.behind (x : Reader α) {f g : α → Reader β} (hf : ∀ a, Alike (f a) (g a)) :
    Alike (x >>= f) (x >>= g) :=
  (Alike.refl x).bind hf

theorem Alike.manyWhile {item item' : Reader α} (more : Token → Bool) (hitem : Alike item item') :
    ∀ bound, Alike (manyWhile more item bound) (manyWhile more item' bound)
  | 0 => .refl _
  | bound + 1 => by
    refine .behind peek fun next => ?_
    cases next with
    | none => exact .refl _
    | some t =>
      show Alike (if more t then _ else _) (if more t then _ else _)
      cases more t with
      | true => exact hitem.bind fun first => (hitem.manyWhile more bound).bind fun _ => .refl _
      | false => exact .refl _

end Reader

open Reader

variable {arith : Arithmetic}

/-! ## Statements -/

namespace Stmt

variable {statement statement' item item' : Reader Stmt}

/-- A number that can be negated has one negative. -/
theorem alike_negatedLabel (n : Int64) : Alike (negatedLabel arith n) (negatedLabel .wrapping n) := by
  intro ts
  by_cases hn : n = Int64.minValue
  · cases arith with
    | wrapping => exact .inl rfl
    | checked => exact .inr (negatedLabel_of_none (Arithmetic.negate?_eq_none_iff.mpr ⟨rfl, hn⟩) ts)
  · rw [negatedLabel_of_some (Arithmetic.negate?_of_ne arith hn),
      negatedLabel_of_some (Arithmetic.negate?_of_ne _ hn)]
    exact .inl rfl

theorem alike_caseLabel : Alike (caseLabel arith) (caseLabel .wrapping) := by
  refine .behind peek fun next => ?_
  rcases next with _ | t
  · exact .refl _
  · cases t with
    | punct p =>
      cases p with
      | minus => exact .behind skip fun _ => .behind _ fun n => alike_negatedLabel n.1
      | _ => exact .refl _
    | _ => exact .refl _

theorem alike_blockTail (hitem : Alike item item') :
    ∀ bound, Alike (blockTail item bound) (blockTail item' bound)
  | 0 => .refl _
  | bound + 1 => by
    refine .behind peek fun next => ?_
    split
    · exact .refl _
    · exact .refl _
    · exact .refl _
    · exact hitem.bind fun first => (alike_blockTail hitem bound).bind fun _ => .refl _

theorem alike_blockItem (hstmt : Alike statement statement') (bound : Nat) :
    Alike (blockItem statement bound) (blockItem statement' bound) := by
  refine .behind atType fun isType => ?_
  cases isType with
  | true => exact .refl _
  | false => exact hstmt

theorem alike_branchTail (hstmt : Alike statement statement') (bound : Nat) (pos : Position) :
    Alike (branchTail statement bound pos) (branchTail statement' bound pos) := by
  refine .behind _ fun cond => hstmt.bind fun onTrue => .behind _ fun elseWord => ?_
  cases elseWord with
  | some _ => exact hstmt.bind fun onFalse => .refl _
  | none => exact .refl _

theorem alike_whileTail (hstmt : Alike statement statement') (bound : Nat) (pos : Position) :
    Alike (whileTail statement bound pos) (whileTail statement' bound pos) :=
  .behind _ fun _ => hstmt.bind fun _ => .refl _

theorem alike_forTail (hstmt : Alike statement statement') (bound : Nat) (pos : Position) :
    Alike (forTail statement bound pos) (forTail statement' bound pos) := by
  -- the body stands behind the three clauses and their punctuation
  refine .behind _ fun _ => .behind _ fun init => .behind _ fun _ => .behind _ fun cond => ?_
  refine .behind _ fun _ => .behind _ fun step => .behind _ fun _ => ?_
  exact hstmt.bind fun body => .refl _

theorem alike_groupTail (hstmt : Alike statement statement') (bound : Nat) (label : Option CaseLabel)
    (pos : Position) :
    Alike (groupTail statement bound label pos) (groupTail statement' bound label pos) :=
  .behind _ fun _ => (hstmt.manyWhile _ bound).bind fun _ => .refl _

theorem alike_groups (hstmt : Alike statement statement') :
    ∀ bound, Alike (groups arith statement bound) (groups .wrapping statement' bound)
  | 0 => .refl _
  | bound + 1 => by
    refine .behind here fun pos => .behind peek fun next => ?_
    split
    · refine .behind skip fun _ => alike_caseLabel.bind fun label => ?_
      refine (alike_groupTail hstmt _ _ pos).bind fun first => ?_
      exact (alike_groups hstmt bound).bind fun _ => .refl _
    · refine .behind skip fun _ => (alike_groupTail hstmt _ _ pos).bind fun first => ?_
      exact (alike_groups hstmt bound).bind fun _ => .refl _
    · exact .refl _
    · exact .refl _

theorem alike_switchTail (hstmt : Alike statement statement') (bound : Nat) (pos : Position) :
    Alike (switchTail arith statement bound pos) (switchTail .wrapping statement' bound pos) :=
  .behind _ fun _ => .behind _ fun _ => (alike_groups hstmt bound).bind fun _ => .refl _

theorem alike_reader : ∀ bound, Alike (reader arith bound) (reader .wrapping bound)
  | 0 => .refl _
  | bound + 1 => by
    have hstmt := alike_reader bound
    refine .behind here fun pos => .behind peek fun next => ?_
    split
    · exact .refl _
    · refine .behind skip fun _ => ?_
      exact (alike_blockTail (alike_blockItem hstmt _) _).bind fun body => .refl _
    · exact .behind skip fun _ => alike_branchTail hstmt _ pos
    · exact .behind skip fun _ => alike_whileTail hstmt _ pos
    · exact .behind skip fun _ => alike_forTail hstmt _ pos
    · exact .behind skip fun _ => alike_switchTail hstmt _ pos
    · exact .refl _
    · exact .refl _
    · exact .refl _

end Stmt

/-! ## Programs -/

theorem FunctionDef.alike_tail (bound : Nat) (returns : Ty) (name : String) (pos : Position) :
    Alike (FunctionDef.tail arith bound returns name pos)
      (FunctionDef.tail .wrapping bound returns name pos) := by
  refine .behind _ fun params => .behind _ fun bodyPos => ?_
  exact (Stmt.alike_blockTail (Stmt.alike_blockItem (Stmt.alike_reader bound) bound) bound).bind
    fun body => .refl _

theorem Item.alike_reader (bound : Nat) :
    Alike (Item.reader arith bound) (Item.reader .wrapping bound) := by
  refine .behind _ fun type => .behind _ fun name => .behind _ fun paren => ?_
  cases paren with
  | some _ => exact (FunctionDef.alike_tail bound _ _ _).bind fun f => .refl _
  | none => exact .refl _

theorem Program.alike_reader (bound : Nat) :
    Alike (Program.reader arith bound) (Program.reader .wrapping bound) := by
  refine .behind _ fun pos => .behind _ fun name => .behind _ fun _ => ?_
  exact ((Item.alike_reader bound).manyWhile _ bound).bind fun items => .refl _

/-- The parser gives the answer of wrapping arithmetic, or none. -/
theorem parseIn_cases (arith : Arithmetic) (tokens : List Lexeme) :
    parseIn arith tokens = some (parse tokens) ∨ parseIn arith tokens = none := by
  rw [← parseIn_wrapping, parseIn, parseIn, Reader.read?, Reader.read?]
  rcases Program.alike_reader (tokens.length + 1) tokens with h | h
  · rw [h]
    exact .inl rfl
  · rw [h]
    exact .inr rfl

/-! ## Where the parser breaks down -/

/-- The least number stands behind a minus sign where the number of a case label is looked for: an end
marker in its place would be refused for the lack of the number. -/
def NegatesLeast (tokens : List Lexeme) : Prop :=
  ∃ front minusPos pos after,
    tokens = front ++ Punct.minus.at minusPos :: ⟨.integer Int64.minValue, pos⟩ :: after ∧
      NoEnd front ∧ parseIn .checked (front ++ [Punct.minus.at minusPos, ⟨.endOfInput, pos⟩]) =
        some (.error (.unexpectedEnd .integerAfterMinus pos))

/-- Tokens have one first end marker. -/
theorem eq_of_firstEnd {front front' rest rest' : List Lexeme} {l l' : Lexeme}
    (h : front ++ l :: rest = front' ++ l' :: rest') (hfront : NoEnd front) (hfront' : NoEnd front')
    (hl : l.token = .endOfInput) (hl' : l'.token = .endOfInput) : front = front' := by
  rcases List.append_eq_append_iff.mp h with ⟨between, rfl, hrest⟩ | ⟨between, rfl, hrest⟩
  · rcases between with _ | ⟨l₁, between⟩
    · rw [List.append_nil]
    · obtain rfl : l = l₁ := (List.cons.inj hrest).1
      exact absurd hl (hfront' l (by simp))
  · rcases between with _ | ⟨l₁, between⟩
    · rw [List.append_nil]
    · obtain rfl : l' = l₁ := (List.cons.inj hrest).1
      exact absurd hl' (hfront l' (by simp))

/-- The parser breaks down exactly over the least number. -/
theorem parseIn_eq_none_iff_negatesLeast {tokens : List Lexeme} :
    parseIn arith tokens = none ↔ arith = .checked ∧ NegatesLeast tokens := by
  have hb : tokens.length < tokens.length + 1 := Nat.lt_succ_self _
  have hprompt := Program.prompt_reader arith (tokens.length + 1) (tokens.length + 1)
  have hlength : ∀ {front after : List Lexeme} {minus number : Lexeme} (stop : Lexeme),
      tokens = front ++ minus :: number :: after →
        (front ++ [minus, stop]).length < tokens.length + 1 := by
    rintro front after minus number stop rfl
    simp only [List.length_append, List.length_cons, List.length_nil]
    omega
  constructor
  · intro h
    have hsettled := hprompt.settled hb
    rw [(parseIn_eq_none_iff hb).mp h] at hsettled
    cases hsettled with
    | @overflow front after minus number n split noEnd isMinus isNumber unfit again asks =>
      obtain ⟨rfl, rfl⟩ := Arithmetic.negate?_eq_none_iff.mp unfit
      rcases minus with ⟨t, minusPos⟩
      rcases number with ⟨t', pos⟩
      obtain rfl : t = .punct .minus := isMinus
      obtain rfl : t' = .integer Int64.minValue := isNumber
      refine ⟨rfl, front, minusPos, pos, after, split, noEnd, ?_⟩
      exact (parseIn_eq_error_iff (hlength _ split)).mpr
        ((asks pos).resolve_right (hprompt.ne_unfinished (hlength _ split)))
  · rintro ⟨rfl, front, minusPos, pos, after, split, hfront, hrefused⟩
    have hsettled := hprompt.settled (hlength ⟨.endOfInput, pos⟩ split)
    rw [(parseIn_eq_error_iff (hlength _ split)).mp hrefused] at hsettled
    -- the tokens were refused at the end marker, so the sign in front of it was taken
    cases hsettled with
    | @raised _ front' after' l split' noEnd raisedAt again breaks =>
      have hend : front' ++ l :: after' =
          (front ++ [Punct.minus.at minusPos]) ++ ⟨.endOfInput, pos⟩ :: [] := by
        rw [← split', List.append_assoc]
        rfl
      obtain rfl := eq_of_firstEnd hend noEnd (by simp [hfront]) raisedAt.2 rfl
      have hoverflow := (breaks pos rfl).2 Int64.minValue pos after rfl
      rw [List.append_assoc, List.singleton_append, ← split] at hoverflow
      exact (parseIn_eq_none_iff hb).mpr (hoverflow.resolve_right (hprompt.ne_unfinished hb))
    | ranOut noEnd again => exact absurd rfl (noEnd ⟨.endOfInput, .start⟩ (by simp))

/-- Texts are parsed alike in either arithmetic. -/
theorem parseIn_of_tokenize {source : String} {tokens : List Lexeme} (h : tokenize source = .ok tokens)
    (arith : Arithmetic) : parseIn arith tokens = some (parse tokens) := by
  refine (parseIn_cases arith tokens).resolve_right fun hnone => ?_
  -- the parser would have broken down over a number that no text holds
  obtain ⟨-, front, minusPos, pos, after, rfl, -⟩ := parseIn_eq_none_iff_negatesLeast.mp hnone
  obtain ⟨last, -, hsplit⟩ := tokenize_eq_ok.mp h
  have hmem : ⟨.integer Int64.minValue, pos⟩ ∈ (scanText source).lexemes ++ [⟨.endOfInput, last⟩] := by
    rw [← hsplit]
    simp
  rcases List.mem_append.mp hmem with hmem | hmem
  · exact Token.ne_minValue_of_lexable (lexable_of_mem_scan hmem) rfl
  · cases List.mem_singleton.mp hmem

end Primer
