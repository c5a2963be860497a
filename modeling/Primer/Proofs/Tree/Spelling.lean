import Primer.Proofs.Grammar.Canonical
import Primer.Proofs.Token.Lexable

/-!
# A printed tree holds the tokens of the tree

Scanning the text of a tree gives back the tokens that it was printed with, as long as those are
tokens that a text can hold at all. The text is taken apart as it was put together:

- `SpellsAlone`: the piece holds its tokens wherever it stands;
- `SpellsBefore`: it does if no letter or digit follows. This is how expressions end.

- `Expr.spells`, `Stmt.spells` and `Program.spells` are the statements for the three levels.
-/

namespace Primer

/-! ## Putting texts together -/

/-- The text holds the tokens wherever it stands. -/
def SpellsAlone (s : String) (ts : List Token) : Prop :=
  ∀ rest, Spells s ts rest

/-- The text holds the tokens if no letter or digit follows. -/
def SpellsBefore (s : String) (ts : List Token) : Prop :=
  ∀ rest, Ends rest → Spells s ts rest

/-- The text holds the tokens wherever it stands, and it may stand behind a word or number. -/
structure Separates (s : String) (ts : List Token) : Prop where
  alone : SpellsAlone s ts
  ends : ∀ rest, Ends (s.toList ++ rest)

section

variable {s s' : String} {ts ts' : List Token}

theorem SpellsAlone.before (h : SpellsAlone s ts) : SpellsBefore s ts :=
  fun rest _ => h rest

theorem SpellsAlone.append (h : SpellsAlone s ts) (h' : SpellsAlone s' ts') :
    SpellsAlone (s ++ s') (ts ++ ts') :=
  fun rest => (h _).append (h' rest)

theorem SpellsAlone.append_before (h : SpellsAlone s ts) (h' : SpellsBefore s' ts') :
    SpellsBefore (s ++ s') (ts ++ ts') :=
  fun rest hrest => (h _).append (h' rest hrest)

theorem SpellsBefore.append (h : SpellsBefore s ts) (h' : Separates s' ts') :
    SpellsAlone (s ++ s') (ts ++ ts') :=
  fun rest => (h _ (h'.ends rest)).append (h'.alone rest)

theorem Separates.append (h : Separates s ts) (h' : SpellsAlone s' ts') :
    Separates (s ++ s') (ts ++ ts') where
  alone := h.alone.append h'
  ends := by
    intro rest
    rw [String.toList_append, List.append_assoc]
    exact h.ends _

theorem SpellsAlone.of_eq (hs : s' = s) (h : SpellsAlone s ts) : SpellsAlone s' ts :=
  hs ▸ h

theorem SpellsBefore.of_eq (hs : s' = s) (h : SpellsBefore s ts) : SpellsBefore s' ts :=
  hs ▸ h

theorem Separates.of_eq (hs : s' = s) (h : Separates s ts) : Separates s' ts :=
  hs ▸ h

/-- A text separates if its first character does. -/
theorem SpellsAlone.separates (h : SpellsAlone s ts)
    (hs : s.toList.head?.any (fun c => !isNamePart c) = true) : Separates s ts where
  alone := h
  ends := by
    intro rest
    cases htext : s.toList with
    | nil =>
      rw [htext] at hs
      cases hs
    | cons c cs =>
      rw [htext] at hs
      exact ends_cons (by simpa using hs)

end

theorem alone_layout {s : String} (h : s.toList.all isLayout = true) : SpellsAlone s [] :=
  spells_layout (List.all_eq_true.mp h)

theorem before_keyword (k : Keyword) : SpellsBefore k.text [.keyword k] :=
  fun _ hrest => spells_keyword k hrest

theorem separates_blank : Separates " " [] :=
  (alone_layout (by decide)).separates (by decide +kernel)

theorem separates_newline : Separates "\n" [] :=
  (alone_layout (by decide)).separates (by decide +kernel)

theorem separates_punct (p : Punct) (h : ∀ c, p.extendedBy c = false) :
    Separates p.text [.punct p] := by
  have halone : SpellsAlone p.text [.punct p] := fun _ => spells_punct p fun c _ => h c
  refine halone.separates ?_
  cases p <;> decide

theorem separates_semicolon : Separates ";" [.punct .semicolon] :=
  separates_punct .semicolon fun _ => rfl

theorem separates_openingParen : Separates "(" [.punct .leftParen] :=
  separates_punct .leftParen fun _ => rfl

theorem separates_closingParen : Separates ")" [.punct .rightParen] :=
  separates_punct .rightParen fun _ => rfl

theorem separates_semicolonLine : Separates ";\n" [.punct .semicolon] :=
  (separates_semicolon.append separates_newline.alone).of_eq (by decide)

/-- An operator between blanks. -/
theorem separates_operator (p : Punct) : Separates (" " ++ p.text ++ " ") [.punct p] := by
  have hop : SpellsAlone (p.text ++ " ") [.punct p] := by
    intro rest
    have hend : ∀ c ∈ (" ".toList ++ rest).head?, p.extendedBy c = false := by
      rintro c ⟨⟩
      cases p <;> rfl
    exact (spells_punct p hend).append (separates_blank.alone rest)
  rw [String.append_assoc]
  exact separates_blank.append hop

theorem separates_equals : Separates " = " [.punct .equals] :=
  (separates_operator .equals).of_eq (by decide)

/-- A reserved word and a parenthesis. -/
theorem alone_header (k : Keyword) {lead : String} (hlead : lead = k.text ++ (" " ++ "(")) :
    SpellsAlone lead [.keyword k, .punct .leftParen] := by
  have hparen : Separates (" " ++ "(") [.punct .leftParen] :=
    separates_blank.append separates_openingParen.alone
  exact ((before_keyword k).append hparen).of_eq hlead

/-- A reserved word and a blank. -/
theorem alone_word (k : Keyword) {lead : String} (hlead : lead = k.text ++ " ") :
    SpellsAlone lead [.keyword k] :=
  ((before_keyword k).append separates_blank).of_eq hlead

/-! ## Expressions -/

/-- All of the tokens can stand in a text. -/
def Lexable (ts : List Token) : Prop :=
  ∀ t ∈ ts, t.lexable = true

@[simp] theorem lexable_nil : Lexable [] := by
  rintro t ⟨⟩

@[simp] theorem lexable_cons {t : Token} {ts : List Token} :
    Lexable (t :: ts) ↔ t.lexable = true ∧ Lexable ts :=
  List.forall_mem_cons

@[simp] theorem lexable_append {ts ts' : List Token} :
    Lexable (ts ++ ts') ↔ Lexable ts ∧ Lexable ts' :=
  List.forall_mem_append

@[simp] theorem lexable_wrap {wrap : Bool} {ts : List Token} :
    Lexable (wrapTokens wrap ts) ↔ Lexable ts := by
  cases wrap with
  | false => rfl
  | true => simp [wrapTokens, Token.lexable]

theorem before_wrap {wrap : Bool} {s : String} {ts : List Token} (h : SpellsBefore s ts) :
    SpellsBefore (parenthesize wrap s) (wrapTokens wrap ts) := by
  cases wrap with
  | false => exact h
  | true =>
    exact ((separates_openingParen.alone.append_before h).append separates_closingParen).before

theorem before_token {t : Token} (ht : t.lexable = true) (hpunct : ∀ p, t ≠ .punct p) :
    SpellsBefore t.text [t] := by
  intro rest hrest
  refine spells_token ht ?_
  cases t with
  | integer n | identifier name | keyword k => exact hrest
  | punct p => exact absurd rfl (hpunct p)
  | char c | string s | comment | blockComment | newline | endOfInput => trivial

theorem Literal.text_token (value : Literal) : value.token.text = value.text := by
  cases value <;> rfl

/-- A text whose first token is not an operator with an equals sign begins with no equals sign. -/
theorem Spells.head_ne_equals {s : String} {t : Token} {ts : List Token} {rest : List Char}
    (h : Spells s (t :: ts) rest) (hequals : t ≠ .punct .equals) (hpair : t ≠ .punct .equalEqual) :
    ∀ c ∈ (s.toList ++ rest).head?, c ≠ '=' := by
  -- the scanner would have found one of the two operators there
  rintro c hc rfl
  obtain ⟨ls, pos, hls, hscan⟩ := h .start
  obtain ⟨more, hmore⟩ := List.head?_eq_some_iff.mp hc
  have htokens : ((scan 0 .start (s.toList ++ rest)).lexemes.map Lexeme.token).head? = some t := by
    rw [hscan]
    simp [Scanned.prepend, hls]
  have hfront : Piece.front '=' more = .token (.punct .equals) 0 ∨
      Piece.front '=' more = .token (.punct .equalEqual) 1 := by
    cases more with
    | nil => exact .inl rfl
    | cons d more =>
      show Piece.ofPunct '=' (d :: more) = _ ∨ Piece.ofPunct '=' (d :: more) = _
      by_cases hd : d = '='
      · subst hd
        exact .inr rfl
      · refine .inl ?_
        -- no operator but `==` starts with an equals sign and has two characters
        have hnone : Punct.ofPair? '=' d = none := by
          cases hpair : Punct.ofPair? '=' d with
          | none => rfl
          | some q =>
            have := Punct.ofPair?_eq_some hpair
            grind
        simp [Piece.ofPunct, hnone, Punct.ofChar?]
  rw [hmore, scan] at htokens
  rcases hfront with hfront | hfront
  · rw [hfront] at htokens
    exact hequals (Option.some.inj htokens).symm
  · rw [hfront] at htokens
    exact hpair (Option.some.inj htokens).symm

/-- The first token of an operand is one that an expression may begin with. -/
theorem Expr.wrap_opens (e : Expr) (wrap : Bool) :
    ∃ t ts, wrapTokens wrap e.tokens = t :: ts ∧ t.opensExpr = true := by
  have hreads : Expr.Reads 1 (lexemesOf (wrapTokens wrap e.tokens) ++ []) e.erase [] :=
    (Expr.reads_tokens e).wrap (by decide) (fun _ => e.precedence_bounds.1) []
  obtain ⟨l, more, hl, hopens⟩ := hreads.opens
  cases htokens : wrapTokens wrap e.tokens with
  | nil =>
    rw [htokens] at hl
    cases hl
  | cons t ts =>
    rw [htokens] at hl
    cases hl
    exact ⟨t, ts, rfl, hopens⟩

theorem before_unary {op : UnaryOp} {e : Expr} {wrap : Bool} (h : SpellsBefore e.text e.tokens) :
    SpellsBefore (op.text ++ parenthesize wrap e.text) (.punct op.punct :: wrapTokens wrap e.tokens) := by
  intro rest hrest
  have hoperand : Spells (parenthesize wrap e.text) (wrapTokens wrap e.tokens) rest :=
    before_wrap h rest hrest
  obtain ⟨t, ts, htokens, hopens⟩ := e.wrap_opens wrap
  have hhead := (htokens ▸ hoperand).head_ne_equals (by rintro rfl; cases hopens)
    (by rintro rfl; cases hopens)
  have hop : Spells op.punct.text [.punct op.punct] ((parenthesize wrap e.text).toList ++ rest) := by
    refine spells_punct op.punct fun c hc => ?_
    have hne : c ≠ '=' := hhead c hc
    cases op with
    | negate => rfl
    | not =>
      unfold UnaryOp.punct Punct.extendedBy
      split <;> simp_all
  rw [op.text_punct] at hop
  exact hop.append hoperand

theorem before_binary {op : BinaryOp} {left right : String} {ts ts' : List Token}
    (hleft : SpellsBefore left ts) (hright : SpellsBefore right ts') :
    SpellsBefore (left ++ " " ++ op.text ++ " " ++ right) (ts ++ .punct op.punct :: ts') := by
  have hop : Separates (" " ++ op.text ++ " ") [.punct op.punct] := by
    rw [← op.text_punct]
    exact separates_operator op.punct
  have hall := (hleft.append hop).append_before hright
  simpa only [String.append_assoc, List.append_assoc, List.singleton_append] using hall

theorem before_comma {s s' : String} {ts ts' : List Token} (h : SpellsBefore s ts)
    (h' : SpellsBefore s' ts') : SpellsBefore (s ++ ", " ++ s') (ts ++ .punct .comma :: ts') := by
  have hpunct : Separates "," [.punct .comma] := separates_punct .comma fun _ => rfl
  have hcomma : Separates ", " [.punct .comma] :=
    (hpunct.append separates_blank.alone).of_eq (by decide)
  have hall := (h.append hcomma).append_before h'
  simpa only [List.append_assoc, List.singleton_append] using hall

theorem before_call {name args : String} {ts : List Token}
    (hname : (Token.identifier name).lexable = true) (hargs : SpellsBefore args ts) :
    SpellsBefore (name ++ "(" ++ args ++ ")")
      (.identifier name :: .punct .leftParen :: (ts ++ [.punct .rightParen])) := by
  have hhead : SpellsAlone (name ++ "(") ([.identifier name] ++ [.punct .leftParen]) :=
    (before_token hname (by rintro p ⟨⟩)).append separates_openingParen
  have hall := (hhead.append_before hargs).append separates_closingParen
  simpa only [List.append_assoc, List.cons_append, List.nil_append] using hall.before

mutual

/-- The text of an expression holds its tokens. -/
theorem Expr.spells : ∀ e : Expr, Lexable e.tokens → SpellsBefore e.text e.tokens
  | .literal value _, h => by
    simp only [Expr.tokens, lexable_cons] at h
    simp only [Expr.text, Expr.tokens, ← value.text_token]
    -- a literal is no operator, which might run into what stands behind it
    exact before_token h.1 (by cases value <;> rintro p ⟨⟩)
  | .var name _, h => by
    simp only [Expr.tokens, lexable_cons] at h
    simp only [Expr.text, Expr.tokens]
    exact before_token h.1 (by rintro p ⟨⟩)
  | .assign name value _, h => by
    simp only [Expr.tokens, lexable_cons] at h
    simp only [Expr.text, Expr.tokens]
    have hname : SpellsBefore name [.identifier name] := before_token h.1 (by rintro p ⟨⟩)
    exact (hname.append separates_equals).append_before (value.spells h.2.2)
  | .unary _ operand _, h => by
    simp only [Expr.tokens, lexable_cons, lexable_wrap] at h
    simp only [Expr.text, Expr.tokens]
    exact before_unary (operand.spells h.2)
  | .binary _ left right _, h => by
    simp only [Expr.tokens, lexable_append, lexable_cons, lexable_wrap] at h
    simp only [Expr.text, Expr.tokens]
    exact before_binary (before_wrap (left.spells h.1)) (before_wrap (right.spells h.2.2))
  | .call _ args _, h => by
    simp only [Expr.tokens, lexable_cons, lexable_append] at h
    simp only [Expr.text, Expr.tokens]
    exact before_call h.1 (Expr.spells_list args h.2.2.1)

theorem Expr.spells_list : ∀ es : List Expr, Lexable (commaTokens (Expr.tokenLists es)) →
    SpellsBefore (commaSeparated (Expr.texts es)) (commaTokens (Expr.tokenLists es))
  | [], _ => fun rest _ => spells_empty rest
  | [e], h => by
    simp only [Expr.tokenLists, commaTokens] at h
    simp only [Expr.texts, commaSeparated, Expr.tokenLists, commaTokens]
    exact e.spells h
  | e :: e' :: es, h => by
    simp only [Expr.tokenLists, commaTokens, lexable_append, lexable_cons] at h
    have hothers := Expr.spells_list (e' :: es) (by simpa only [Expr.tokenLists] using h.2.2)
    simp only [Expr.texts, commaSeparated, Expr.tokenLists, commaTokens] at hothers ⊢
    exact before_comma (e.spells h.1) hothers

end

/-! ## Statements -/

theorem alone_indentation (depth : Nat) : SpellsAlone (indentation depth) [] := by
  refine spells_layout fun c hc => ?_
  rw [indentation, String.toList_ofList] at hc
  rw [List.eq_of_mem_replicate hc]
  rfl

/-- A body follows its header after blanks or a line break. -/
theorem separates_bodyLead (inline : Bool) (depth : Nat) : Separates (bodyLead inline depth) [] := by
  cases inline with
  | true => exact separates_blank
  | false => exact separates_newline.append (alone_indentation (depth + 1))

theorem before_elseLead (afterBlock : Bool) (depth : Nat) :
    SpellsBefore (elseLead afterBlock depth) [.keyword .elseWord] := by
  have helse : SpellsBefore "else" [.keyword .elseWord] := before_keyword .elseWord
  cases afterBlock with
  | true =>
    have hword : SpellsBefore " else" [.keyword .elseWord] :=
      (separates_blank.alone.append_before helse).of_eq (by decide)
    exact hword
  | false => exact (separates_newline.append (alone_indentation depth)).alone.append_before helse

theorem before_decl (d : VarDecl) (h : Lexable d.tokens) : SpellsBefore d.text d.tokens := by
  cases d with
  | mk type name init pos =>
    have htype : SpellsBefore type.text [.keyword (.typeWord type)] := before_keyword (.typeWord type)
    have hlead : SpellsAlone (type.text ++ " ") [.keyword (.typeWord type)] :=
      htype.append separates_blank
    have hname : (Token.identifier name).lexable = true := h _ (by cases init <;> simp [VarDecl.tokens])
    have hvariable : SpellsBefore (type.text ++ " " ++ name)
        [.keyword (.typeWord type), .identifier name] :=
      hlead.append_before (before_token hname (by rintro p ⟨⟩))
    cases init with
    | none => exact hvariable
    | some e =>
      simp only [VarDecl.tokens, lexable_cons] at h
      exact (hvariable.append separates_equals).append_before (e.spells h.2.2.2)

theorem before_forInit (init : Option ForInit) (h : Lexable ((init.map ForInit.tokens).getD [])) :
    SpellsBefore ((init.map ForInit.text).getD "") ((init.map ForInit.tokens).getD []) := by
  rcases init with _ | d | e
  · exact fun rest _ => spells_empty rest
  · exact before_decl d h
  · exact e.spells h

theorem before_clause (e? : Option Expr) (h : Lexable (clauseTokens e?)) :
    SpellsBefore (clauseText e?) (clauseTokens e?) := by
  cases e? with
  | none => exact fun rest _ => spells_empty rest
  | some e => exact separates_blank.alone.append_before (e.spells h)

/-- The sign of a negative number is written in front of its digits. -/
theorem toString_neg {n : Int64} (hn : n.toInt < 0) (hneg : 0 ≤ (-n).toInt) :
    toString n.toInt = "-" ++ toString (-n).toInt := by
  have hvalue : (-n).toInt = -n.toInt := by
    have hle := Int64.le_toInt n
    rw [Int64.toInt_neg, Int.bmod_def] at hneg ⊢
    omega
  cases hk : n.toInt with
  | ofNat k =>
    rw [hk] at hn
    exact absurd hn (Int.not_lt.mpr (Int.natCast_nonneg k))
  | negSucc k =>
    rw [hvalue, hk]
    rfl

/-- A case constant; a negative one is written with a sign. -/
theorem before_label (label : CaseLabel) (h : Lexable label.tokens) :
    SpellsBefore label.text label.tokens := by
  cases label with
  | char c => exact before_token (t := .char c) (h _ List.mem_cons_self) (by rintro p ⟨⟩)
  | int n =>
    simp only [CaseLabel.tokens] at h ⊢
    by_cases hn : n.toInt < 0
    · rw [if_pos hn] at h ⊢
      have hminus : Separates "-" [.punct .minus] := separates_punct .minus fun _ => rfl
      simp only [lexable_cons, Token.lexable, decide_eq_true_eq] at h
      have hsign : CaseLabel.text (.int n) = "-" ++ toString (-n).toInt := toString_neg hn h.2.1
      rw [hsign]
      exact hminus.alone.append_before fun rest hrest => spells_integer h.2.1 hrest
    · rw [if_neg hn] at h ⊢
      exact before_token (t := .integer n) (h _ List.mem_cons_self) (by rintro p ⟨⟩)

theorem alone_labelText (label : Option CaseLabel) (h : Lexable (labelTokens label)) :
    SpellsAlone (labelText label) (labelTokens label) := by
  have hcolon : Separates ":" [.punct .colon] := separates_punct .colon fun _ => rfl
  have hline : Separates ":\n" [.punct .colon] :=
    (hcolon.append separates_newline.alone).of_eq (by decide)
  cases label with
  | none => exact ((before_keyword .defaultWord).append hline).of_eq (by decide)
  | some label =>
    simp only [labelTokens, lexable_cons, lexable_append] at h
    have hcase : SpellsAlone "case " [.keyword .caseWord] := alone_word .caseWord (by decide)
    exact (hcase.append_before (before_label label h.2.1)).append hline

/-- A condition in parentheses behind a reserved word. -/
theorem alone_condition {k : Keyword} {lead : String} (hlead : lead = k.text ++ (" " ++ "(")) {e : Expr}
    (h : Lexable (headerTokens k e)) : SpellsAlone (lead ++ e.text ++ ")") (headerTokens k e) := by
  simp only [headerTokens, lexable_cons, lexable_append] at h
  exact ((alone_header k hlead).append_before (e.spells h.2.2.1)).append separates_closingParen

theorem alone_openingBrace : SpellsAlone "\x7b\n" [.punct .leftBrace] := by
  have hbrace : Separates "\x7b" [.punct .leftBrace] := separates_punct .leftBrace fun _ => rfl
  exact (hbrace.append separates_newline.alone).alone.of_eq (by decide)

theorem separates_closingBrace : Separates "\x7d" [.punct .rightBrace] :=
  separates_punct .rightBrace fun _ => rfl

theorem alone_closingBrace (depth : Nat) :
    SpellsAlone (indentation depth ++ "\x7d") [.punct .rightBrace] :=
  (alone_indentation depth).append separates_closingBrace.alone

section Statements

variable {s : String} {ts : List Token} {e : Expr}

/-- A header with a condition, and the body below it. -/
theorem alone_body (k : Keyword) (lead : String) (hlead : lead = k.text ++ (" " ++ "("))
    (inline : Bool) (depth : Nat) (h : Lexable (headerTokens k e)) (hbody : SpellsAlone s ts) :
    SpellsAlone (lead ++ e.text ++ ")" ++ bodyLead inline depth ++ s) (headerTokens k e ++ ts) := by
  have hall := ((alone_condition hlead h).append (separates_bodyLead inline depth).alone).append hbody
  simpa only [List.append_nil] using hall

theorem alone_else {s' : String} {ts' : List Token} (afterBlock inline : Bool) (depth : Nat)
    (h : SpellsAlone s ts) (h' : SpellsAlone s' ts') :
    SpellsAlone (s ++ elseLead afterBlock depth ++ bodyLead inline depth ++ s')
      (ts ++ .keyword .elseWord :: ts') := by
  have helse := h.append_before (before_elseLead afterBlock depth)
  have hall := (helse.append (separates_bodyLead inline depth)).append h'
  simpa only [List.append_nil, List.append_assoc, List.singleton_append] using hall

theorem alone_for {init : Option ForInit} {cond step : Option Expr} (inline : Bool) (depth : Nat)
    (hinit : Lexable ((init.map ForInit.tokens).getD [])) (hcond : Lexable (clauseTokens cond))
    (hstep : Lexable (clauseTokens step)) (hbody : SpellsAlone s ts) :
    SpellsAlone ("for (" ++ (init.map ForInit.text).getD "" ++ ";" ++ clauseText cond ++ ";" ++
        clauseText step ++ ")" ++ bodyLead inline depth ++ s)
      (.keyword .forWord :: .punct .leftParen :: ((init.map ForInit.tokens).getD [] ++
        .punct .semicolon :: (clauseTokens cond ++
          .punct .semicolon :: (clauseTokens step ++ .punct .rightParen :: ts)))) := by
  have hlead : SpellsAlone "for (" _ := alone_header .forWord (by decide)
  have hfirst := (hlead.append_before (before_forInit init hinit)).append separates_semicolon
  have hsecond := (hfirst.append_before (before_clause cond hcond)).append separates_semicolon
  have hthird := (hsecond.append_before (before_clause step hstep)).append separates_closingParen
  have hall := (hthird.append (separates_bodyLead inline depth).alone).append hbody
  simpa only [List.append_nil, List.append_assoc, List.cons_append, List.nil_append] using hall

theorem alone_switch (depth : Nat) (h : Lexable (headerTokens .switchWord e)) (hgroups : SpellsAlone s ts) :
    SpellsAlone ("switch (" ++ e.text ++ ") \x7b\n" ++ s ++ indentation depth ++ "\x7d")
      (headerTokens .switchWord e ++ .punct .leftBrace :: (ts ++ [.punct .rightBrace])) := by
  simp only [headerTokens, lexable_cons, lexable_append] at h
  have hclose : Separates ") \x7b\n" [.punct .rightParen, .punct .leftBrace] :=
    ((separates_closingParen.append separates_blank.alone).append alone_openingBrace).of_eq
      (by decide)
  have hlead : SpellsAlone "switch (" _ := alone_header .switchWord (by decide)
  have hheader := (hlead.append_before (e.spells h.2.2.1)).append hclose
  have hall := (hheader.append hgroups).append (alone_closingBrace depth)
  simpa only [headerTokens, String.append_assoc, List.append_assoc, List.cons_append,
    List.nil_append] using hall

theorem alone_return (value : Option Expr) (h : Lexable (clauseTokens value)) (depth : Nat)
    (pos : Position) :
    SpellsAlone ((Stmt.ret value pos).text depth) (Stmt.ret value pos).tokens := by
  cases value with
  | none =>
    simp only [Stmt.text, Stmt.tokens, clauseTokens]
    exact ((before_keyword .returnWord).append separates_semicolon).of_eq (by decide)
  | some e =>
    simp only [Stmt.text, Stmt.tokens, clauseTokens]
    have hlead : SpellsAlone "return " [.keyword .returnWord] :=
      alone_word .returnWord (by decide)
    exact (hlead.append_before (e.spells h)).append separates_semicolon

end Statements

mutual

/-- The text of a statement holds its tokens. -/
theorem Stmt.spells (depth : Nat) : ∀ s : Stmt, Lexable s.tokens → SpellsAlone (s.text depth) s.tokens
  | .declare decl, h => by
    simp only [Stmt.tokens, lexable_append] at h
    simp only [Stmt.text, Stmt.tokens]
    exact (before_decl decl h.1).append separates_semicolon
  | .eval e _, h => by
    simp only [Stmt.tokens, lexable_append] at h
    simp only [Stmt.text, Stmt.tokens]
    exact (e.spells h.1).append separates_semicolon
  | .block body _, h => by
    simp only [Stmt.tokens, lexable_cons, lexable_append] at h
    simp only [Stmt.text, Stmt.tokens, String.append_assoc]
    exact alone_openingBrace.append
      ((Stmt.spells_lines (depth + 1) body h.2.1).append (alone_closingBrace depth))
  | .branch _ onTrue none _, h => by
    simp only [Stmt.tokens, lexable_append] at h
    simp only [Stmt.text, Stmt.tokens]
    exact alone_body .ifWord "if (" (by decide) _ _ h.1 (Stmt.spells _ onTrue h.2)
  | .branch _ onTrue (some onFalse) _, h => by
    simp only [Stmt.tokens, lexable_append, lexable_cons] at h
    simp only [Stmt.text, Stmt.tokens]
    have hfirst := alone_body .ifWord "if (" (by decide) onTrue.isBlock depth h.1.1
      (Stmt.spells (bodyDepth onTrue.isBlock depth) onTrue h.1.2)
    exact alone_else _ _ _ hfirst (Stmt.spells _ onFalse h.2.2)
  | .whileLoop _ body _, h => by
    simp only [Stmt.tokens, lexable_append] at h
    simp only [Stmt.text, Stmt.tokens]
    exact alone_body .whileWord "while (" (by decide) _ _ h.1 (Stmt.spells _ body h.2)
  | .forLoop _ _ _ body _, h => by
    simp only [Stmt.tokens, lexable_cons, lexable_append] at h
    simp only [Stmt.text, Stmt.tokens]
    exact alone_for _ _ h.2.2.1 h.2.2.2.2.1 h.2.2.2.2.2.2.1 (Stmt.spells _ body h.2.2.2.2.2.2.2.2)
  | .switch _ groups _, h => by
    simp only [Stmt.tokens, lexable_append, lexable_cons] at h
    simp only [Stmt.text, Stmt.tokens]
    exact alone_switch depth h.1 (CaseGroup.spells_lines (depth + 1) groups h.2.2.1)
  | .ret value pos, h => by
    simp only [Stmt.tokens, lexable_cons, lexable_append] at h
    exact alone_return value h.2.1 depth pos
  | .brk _, _ => by
    simp only [Stmt.text, Stmt.tokens]
    exact ((before_keyword .breakWord).append separates_semicolon).of_eq (by decide)

theorem Stmt.spells_lines (depth : Nat) : ∀ body : List Stmt, Lexable (Stmt.lineTokens body) →
    SpellsAlone (Stmt.lines depth body) (Stmt.lineTokens body)
  | [], _ => by
    simp only [Stmt.lines, Stmt.lineTokens]
    exact spells_empty
  | s :: rest, h => by
    simp only [Stmt.lineTokens, lexable_append] at h
    simp only [Stmt.lines, Stmt.lineTokens]
    have hfirst := ((alone_indentation depth).append (Stmt.spells depth s h.1)).append
      separates_newline.alone
    have hall := hfirst.append (Stmt.spells_lines depth rest h.2)
    simpa only [List.nil_append, List.append_nil] using hall

theorem CaseGroup.spells_lines (depth : Nat) : ∀ groups : List CaseGroup,
    Lexable (CaseGroup.lineTokens groups) →
      SpellsAlone (CaseGroup.lines depth groups) (CaseGroup.lineTokens groups)
  | [], _ => by
    simp only [CaseGroup.lines, CaseGroup.lineTokens]
    exact spells_empty
  | .mk label body _ :: rest, h => by
    simp only [CaseGroup.lineTokens, lexable_append] at h
    simp only [CaseGroup.lines, CaseGroup.lineTokens]
    have hlabel := (alone_indentation depth).append (alone_labelText label h.1.1)
    have hbody := hlabel.append (Stmt.spells_lines (depth + 1) body h.1.2)
    have hall := hbody.append (CaseGroup.spells_lines depth rest h.2)
    simpa only [List.nil_append] using hall

end

/-! ## Programs -/

theorem before_param (p : Param) (h : Lexable p.tokens) : SpellsBefore p.text p.tokens :=
  before_decl ⟨p.type, p.name, none, p.pos⟩ h

theorem before_params : ∀ ps : List Param, Lexable (commaTokens (ps.map Param.tokens)) →
    SpellsBefore (commaSeparated (ps.map Param.text)) (commaTokens (ps.map Param.tokens))
  | [], _ => fun rest _ => spells_empty rest
  | [p], h => before_param p h
  | p :: p' :: ps, h => by
    simp only [List.map_cons, commaTokens, lexable_append, lexable_cons] at h
    exact before_comma (before_param p h.1) (before_params (p' :: ps) h.2.2)

theorem FunctionDef.spells (f : FunctionDef) (h : Lexable f.tokens) : SpellsAlone f.text f.tokens := by
  simp only [FunctionDef.tokens, lexable_cons, lexable_append] at h
  obtain ⟨-, hname, -, hparams, -, -, hbody, -⟩ := h
  have htype : SpellsAlone (f.returns.text ++ " ") [.keyword (.typeWord f.returns)] :=
    alone_word (.typeWord f.returns) rfl
  have hhead : SpellsBefore (f.returns.text ++ " " ++ f.name)
      [.keyword (.typeWord f.returns), .identifier f.name] :=
    htype.append_before (before_token hname (by rintro p ⟨⟩))
  have hclose : Separates ") " [.punct .rightParen] :=
    (separates_closingParen.append separates_blank.alone).of_eq (by decide)
  have hbrace : SpellsAlone "\x7d\n" [.punct .rightBrace] :=
    (separates_closingBrace.append separates_newline.alone).alone.of_eq (by decide)
  have hsignature := ((hhead.append separates_openingParen).append_before
    (before_params f.params hparams)).append hclose
  have hall := ((hsignature.append alone_openingBrace).append
    (Stmt.spells_lines 1 f.body hbody)).append hbrace
  simpa only [FunctionDef.text, FunctionDef.tokens, List.append_assoc, List.cons_append,
    List.nil_append] using hall

theorem Item.spells (i : Item) (h : Lexable i.tokens) : SpellsAlone i.text i.tokens := by
  cases i with
  | function f => exact separates_newline.alone.append (f.spells h)
  | global d =>
    simp only [Item.tokens, lexable_append] at h
    exact (separates_newline.alone.append_before (before_decl d h.1)).append separates_semicolonLine

theorem Item.spells_join (items : List Item) (h : Lexable (items.flatMap Item.tokens)) :
    SpellsAlone (String.join (items.map Item.text)) (items.flatMap Item.tokens) := by
  induction items with
  | nil => exact spells_empty
  | cons i items ih =>
    simp only [List.flatMap_cons, lexable_append] at h
    rw [List.map_cons, String.join_cons, List.flatMap_cons]
    exact (i.spells h.1).append (ih h.2)

/-- The text of a program holds its tokens. -/
theorem Program.spells (p : Program) (h : Lexable p.tokens) : SpellsAlone p.text p.tokens := by
  simp only [Program.tokens, lexable_cons] at h
  have hword : SpellsAlone "Program " [.keyword .programWord] :=
    alone_word .programWord (by decide)
  have hname := hword.append_before (before_token h.2.1 (by rintro p ⟨⟩))
  exact (hname.append separates_semicolonLine).append (Item.spells_join p.items h.2.2.2)

end Primer
