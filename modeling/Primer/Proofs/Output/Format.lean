import Primer.Value.Format

/-!
# Formatting is exact

A format is split from left to right into characters that stand for themselves, doubled percent signs and
verbs, as far as that is possible. What it comes to is then a matter of comparing the verbs with the
values: the verbs use up the values one after another, and the first verb that finds none, or one of
another type, decides.

- `Format.Split` is the split of a format; `Format.exists_split` and `Format.Split.unique` say that there
  is exactly one.
- `Format.Offends` says what is wrong with a format and its values, at the leftmost place where something
  is wrong.
- `Format.expand_items`: items whose verbs fit are replaced, and formatting goes on behind them.
- `format_exact`: formatting gives a text exactly when all verbs fit and no value is left over, and the
  fault of the leftmost offending place otherwise.
-/

namespace Primer

namespace Format

/-! ## The items of a format -/

/-- The letters after a percent sign that stand for a value. -/
inductive Verb where
  | int
  | char
  | string
  deriving DecidableEq, Repr

/-- The letter of a verb. -/
def Verb.letter : Verb → Char
  | .int => 'd'
  | .char => 'c'
  | .string => 's'

/-- The type of value that a verb asks for. -/
def Verb.type : Verb → Ty
  | .int => .int
  | .char => .char
  | .string => .string

theorem verbType?_letter (v : Verb) : verbType? v.letter = some v.type := by
  cases v <;> rfl

theorem verbType?_eq_none {x : Char} (h : ∀ v : Verb, x ≠ v.letter) : verbType? x = none := by
  have hint : x ≠ 'd' := h .int
  have hchar : x ≠ 'c' := h .char
  have hstring : x ≠ 's' := h .string
  simp [verbType?, hint, hchar, hstring]

theorem Verb.letter_ne_percent (v : Verb) : v.letter ≠ '%' := by
  cases v <;> decide

theorem Verb.letter_inj {v v' : Verb} (h : v.letter = v'.letter) : v = v' := by
  cases v <;> cases v' <;> first | rfl | cases h

/-- What a format is made of. -/
inductive Item where
  /-- A character that stands for itself. -/
  | literal (c : Char) (notPercent : c ≠ '%')
  /-- Two percent signs, which stand for one. -/
  | percent
  /-- A percent sign and a letter, which stand for a value. -/
  | verb (v : Verb)
  deriving DecidableEq, Repr

namespace Item

/-- How an item is written in a format. -/
def spelling : Item → List Char
  | .literal c _ => [c]
  | .percent => ['%', '%']
  | .verb v => ['%', v.letter]

/-- The verb that an item is. -/
def verb? : Item → Option Verb
  | .verb v => some v
  | .literal _ _ | .percent => none

end Item

/-- The types of values that items ask for, in order. -/
def types (items : List Item) : List Ty :=
  (items.filterMap Item.verb?).map Verb.type

/-- The characters that items stand for, with the values put in one after another. -/
def fill : List Item → List Value → List Char
  | [], _ => []
  | .literal c _ :: items, args => c :: fill items args
  | .percent :: items, args => '%' :: fill items args
  | .verb _ :: items, v :: args => v.text.toList ++ fill items args
  | .verb _ :: items, [] => fill items []

/-! ## The split of a format -/

/-- Where the split of a format ends: at its end, or at a percent sign that opens no item. -/
inductive Ends : List Char → Prop where
  | done : Ends []
  | dangling : Ends ['%']
  | unknown {x : Char} (rest : List Char) (notPercent : x ≠ '%') (noVerb : ∀ v : Verb, x ≠ v.letter) :
    Ends ('%' :: x :: rest)

/-- A format is split into items as far as that is possible, and `rest` is left. -/
structure Split (cs : List Char) (items : List Item) (rest : List Char) : Prop where
  text : cs = items.flatMap Item.spelling ++ rest
  ends : Ends rest

theorem Split.cons {cs rest : List Char} {items : List Item} (h : Split cs items rest) (item : Item) :
    Split (item.spelling ++ cs) (item :: items) rest :=
  ⟨by rw [List.flatMap_cons, List.append_assoc, ← h.text], h.ends⟩

/-- Every format can be split. -/
theorem exists_split : ∀ cs : List Char, ∃ items rest, Split cs items rest
  | [] => ⟨[], [], rfl, .done⟩
  | [c] => by
    by_cases hc : c = '%'
    · subst hc
      exact ⟨[], ['%'], rfl, .dangling⟩
    · exact ⟨[.literal c hc], [], rfl, .done⟩
  | c :: x :: cs => by
    -- two characters decide: a percent sign belongs to what stands behind it
    by_cases hc : c = '%'
    · subst hc
      by_cases hx : x = '%'
      · subst hx
        obtain ⟨items, rest, h⟩ := exists_split cs
        exact ⟨.percent :: items, rest, h.cons .percent⟩
      · by_cases hverb : ∃ v : Verb, x = v.letter
        · obtain ⟨v, rfl⟩ := hverb
          obtain ⟨items, rest, h⟩ := exists_split cs
          exact ⟨.verb v :: items, rest, h.cons (.verb v)⟩
        · exact ⟨[], '%' :: x :: cs, rfl, .unknown cs hx fun v hv => hverb ⟨v, hv⟩⟩
    · obtain ⟨items, rest, h⟩ := exists_split (x :: cs)
      exact ⟨.literal c hc :: items, rest, h.cons (.literal c hc)⟩

/-- The split does not end where an item stands. -/
theorem Item.not_ends (item : Item) (cs : List Char) : ¬ Ends (item.spelling ++ cs) := by
  intro h
  cases item with
  | literal c notPercent =>
    change Ends (c :: cs) at h
    cases h with
    | dangling => exact notPercent rfl
    | unknown _ _ _ => exact notPercent rfl
  | percent =>
    change Ends ('%' :: '%' :: cs) at h
    cases h with
    | unknown _ notPercent _ => exact notPercent rfl
  | verb v =>
    change Ends ('%' :: v.letter :: cs) at h
    cases h with
    | unknown _ _ noVerb => exact noVerb v rfl

/-- The item at the front of a text is determined by the text. -/
theorem Item.spelling_inj {item item' : Item} {cs cs' : List Char}
    (h : item.spelling ++ cs = item'.spelling ++ cs') : item = item' ∧ cs = cs' := by
  cases item with
  | literal c notPercent =>
    cases item' with
    | literal c' _ =>
      obtain ⟨rfl, rfl⟩ := List.cons.inj h
      exact ⟨rfl, rfl⟩
    -- text does not start with a percent sign, and the other items do
    | percent | verb v => exact absurd (List.cons.inj h).1 notPercent
  | percent =>
    cases item' with
    | literal c' notPercent => exact absurd (List.cons.inj h).1.symm notPercent
    | percent => exact ⟨rfl, (List.cons.inj (List.cons.inj h).2).2⟩
    | verb v => exact absurd (List.cons.inj (List.cons.inj h).2).1.symm v.letter_ne_percent
  | verb v =>
    cases item' with
    | literal c' notPercent => exact absurd (List.cons.inj h).1.symm notPercent
    | percent => exact absurd (List.cons.inj (List.cons.inj h).2).1 v.letter_ne_percent
    | verb v' =>
      obtain ⟨hletter, hcs⟩ := List.cons.inj (List.cons.inj h).2
      exact ⟨congrArg Item.verb (Verb.letter_inj hletter), hcs⟩

/-- A format is split in one way only. -/
theorem Split.unique {cs rest rest' : List Char} {items items' : List Item} (h : Split cs items rest)
    (h' : Split cs items' rest') : items' = items ∧ rest' = rest := by
  -- the text in front of both splits is the same, so its first item is the first item of both
  induction items generalizing cs items' with
  | nil =>
    cases items' with
    | nil => exact ⟨rfl, h'.text.symm.trans h.text⟩
    | cons item' items' =>
      have htext : _ = rest := h'.text.symm.trans h.text
      rw [List.flatMap_cons, List.append_assoc] at htext
      exact absurd (htext ▸ h.ends) (item'.not_ends _)
  | cons item items ih =>
    have htext := h.text
    rw [List.flatMap_cons, List.append_assoc] at htext
    cases items' with
    | nil =>
      have htext' : cs = rest' := h'.text
      exact absurd (htext'.symm.trans htext ▸ h'.ends) (item.not_ends _)
    | cons item' items' =>
      have htext' := h'.text
      rw [List.flatMap_cons, List.append_assoc] at htext'
      obtain ⟨rfl, hcs⟩ := Item.spelling_inj (htext'.symm.trans htext)
      obtain ⟨rfl, rfl⟩ := ih ⟨rfl, h.ends⟩ ⟨hcs.symm, h'.ends⟩
      exact ⟨rfl, rfl⟩

/-! ## What is wrong with a format -/

/-- What is wrong at the leftmost place where something is wrong. The verbs in front of that place use up
the values `used`, whose types they ask for. -/
inductive Offends (items : List Item) (rest : List Char) (args : List Value) : FormatFault → Prop where
  /-- A verb finds no value. -/
  | missing {before after : List Item} {v : Verb} (split : items = before ++ .verb v :: after)
    (fits : types before = args.map Value.type) :
    Offends items rest args (.missingArgument v.letter)
  /-- A verb finds a value of another type. -/
  | mismatch {before after : List Item} {v : Verb} {used left : List Value} {a : Value}
    (split : items = before ++ .verb v :: after) (given : args = used ++ a :: left)
    (fits : types before = used.map Value.type) (differs : a.type ≠ v.type) :
    Offends items rest args (.typeMismatch v.letter v.type a.type)
  /-- All items fit, and then the format ends with a percent sign. -/
  | dangling {used left : List Value} (given : args = used ++ left)
    (fits : types items = used.map Value.type) (lone : rest = ['%']) :
    Offends items rest args .danglingPercent
  /-- All items fit, and then a percent sign is followed by no verb. -/
  | unknown {used left : List Value} {x : Char} {others : List Char} (given : args = used ++ left)
    (fits : types items = used.map Value.type) (percent : rest = '%' :: x :: others) :
    Offends items rest args (.unknownVerb x)
  /-- The whole format fits, and values are left over. -/
  | unused {used left : List Value} (given : args = used ++ left)
    (fits : types items = used.map Value.type) (whole : rest = []) (surplus : left ≠ []) :
    Offends items rest args (.unusedArguments left.length)

/-- The verbs of some items either all find values of their types, or one of them is the first that
does not. -/
theorem fits_or_first (items : List Item) (args : List Value) :
    (∃ used left, args = used ++ left ∧ types items = used.map Value.type) ∨
      ∃ before v after, items = before ++ .verb v :: after ∧
        (types before = args.map Value.type ∨
          ∃ used a left, args = used ++ a :: left ∧ types before = used.map Value.type ∧
            a.type ≠ v.type) := by
  induction items generalizing args with
  | nil => exact .inl ⟨[], args, rfl, rfl⟩
  | cons item items ih =>
    -- an item that asks for no value changes nothing in what the others find
    have hsilent : item.verb? = none → ∀ is, types (item :: is) = types is := by
      intro hitem is
      rw [types, List.filterMap_cons_none hitem, types]
    cases item with
    | literal | percent =>
      rcases ih args with ⟨used, left, hargs, hfits⟩ | ⟨before, v, after, hsplit, hfirst⟩
      · exact .inl ⟨used, left, hargs, (hsilent rfl items).trans hfits⟩
      · refine .inr ⟨_ :: before, v, after, congrArg _ hsplit, ?_⟩
        rw [hsilent rfl before]
        exact hfirst
    | verb v =>
      have hverb : ∀ is, types (.verb v :: is) = v.type :: types is := fun _ => rfl
      cases args with
      | nil => exact .inr ⟨[], v, items, rfl, .inl rfl⟩
      | cons a args =>
        by_cases ha : a.type = v.type
        · rcases ih args with ⟨used, left, hargs, hfits⟩ | ⟨before, w, after, hsplit, hfirst⟩
          · exact .inl ⟨a :: used, left, congrArg _ hargs, by rw [hverb, hfits, List.map_cons, ha]⟩
          · refine .inr ⟨.verb v :: before, w, after, congrArg _ hsplit, ?_⟩
            rw [hverb, ← ha]
            rcases hfirst with hfits | ⟨used, b, left, hargs, hfits, hb⟩
            · exact .inl (by rw [hfits, List.map_cons])
            · exact .inr ⟨a :: used, b, left, congrArg _ hargs, by rw [hfits, List.map_cons], hb⟩
        · exact .inr ⟨[], v, items, rfl, .inr ⟨[], a, args, rfl, rfl, ha⟩⟩

/-- A format and its values fit, or something is wrong with them. -/
theorem fits_or_offends (items : List Item) {rest : List Char} (hends : Ends rest) (args : List Value) :
    rest = [] ∧ types items = args.map Value.type ∨ ∃ fault, Offends items rest args fault := by
  rcases fits_or_first items args with
    ⟨used, left, hargs, hfits⟩ | ⟨before, v, after, hsplit, hfits | ⟨used, a, left, hargs, hfits, ha⟩⟩
  · cases hends with
    | done =>
      cases left with
      | nil =>
        rw [List.append_nil] at hargs
        exact .inl ⟨rfl, hargs ▸ hfits⟩
      | cons a left => exact .inr ⟨_, .unused hargs hfits rfl (List.cons_ne_nil a left)⟩
    | dangling => exact .inr ⟨_, .dangling hargs hfits rfl⟩
    | unknown others => exact .inr ⟨_, .unknown hargs hfits rfl⟩
  · exact .inr ⟨_, .missing hsplit hfits⟩
  · exact .inr ⟨_, .mismatch hsplit hargs hfits ha⟩

/-! ## Formatting item by item -/

theorem expand_nil (args : List Value) :
    expand [] args = if args = [] then .ok [] else .error (.unusedArguments args.length) := by
  cases args with
  | nil => rw [expand, if_pos rfl]
  | cons a args => rw [expand, if_neg (List.cons_ne_nil a args)]; exact List.cons_ne_nil a args

theorem expand_literal {c : Char} (hc : c ≠ '%') (cs : List Char) (args : List Value) :
    expand (c :: cs) args = (c :: ·) <$> expand cs args := by
  cases cs with
  | nil =>
    rw [expand_nil, expand.eq_3, if_neg hc]
    cases args <;> rfl
  | cons x cs =>
    rw [expand, if_neg hc]
    cases expand (x :: cs) args <;> rfl

theorem expand_percent (cs : List Char) (args : List Value) :
    expand ('%' :: '%' :: cs) args = ('%' :: ·) <$> expand cs args := by
  rw [expand, if_pos rfl, if_pos rfl]
  cases expand cs args <;> rfl

/-- A letter after a percent sign is looked at together with the next value. -/
theorem expand_letter {x : Char} (hx : x ≠ '%') (cs : List Char) (args : List Value) :
    expand ('%' :: x :: cs) args = (do
      let (v, others) ← argument x args
      let text ← expand cs others
      return v.text.toList ++ text) := by
  rw [expand, if_pos rfl, if_neg hx]

theorem expand_verb {v : Verb} {a : Value} (ha : a.type = v.type) (cs : List Char) (args : List Value) :
    expand ('%' :: v.letter :: cs) (a :: args) = (a.text.toList ++ ·) <$> expand cs args := by
  have hargument : argument v.letter (a :: args) = .ok (a, args) := by
    simp [argument, verbType?_letter, ha]
  rw [expand_letter v.letter_ne_percent, hargument]
  show (expand cs args >>= fun text => pure (a.text.toList ++ text)) = _
  cases expand cs args <;> rfl

/-- Items whose verbs find values of their types are replaced, and formatting goes on behind them with the
values that are left. -/
theorem expand_items {items : List Item} {used : List Value} (hfits : types items = used.map Value.type)
    (cs : List Char) (left : List Value) :
    expand (items.flatMap Item.spelling ++ cs) (used ++ left) =
      (fill items used ++ ·) <$> expand cs left := by
  -- the values are used up in the order of the verbs, so both lists get shorter together
  induction items generalizing used with
  | nil =>
    obtain rfl : used = [] := List.map_eq_nil_iff.mp hfits.symm
    show expand cs left = (fun text => text) <$> expand cs left
    cases expand cs left <;> rfl
  | cons item items ih =>
    rw [List.flatMap_cons, List.append_assoc]
    cases item with
    | literal c notPercent =>
      show expand (c :: (items.flatMap Item.spelling ++ cs)) (used ++ left) = _
      rw [expand_literal notPercent, ih hfits, Functor.map_map]
      rfl
    | percent =>
      show expand ('%' :: '%' :: (items.flatMap Item.spelling ++ cs)) (used ++ left) = _
      rw [expand_percent, ih hfits, Functor.map_map]
      rfl
    | verb v =>
      cases used with
      | nil => cases hfits
      | cons a used =>
        obtain ⟨ha, hfits⟩ := List.cons.inj (show v.type :: types items = a.type :: _ from hfits)
        show expand ('%' :: v.letter :: (items.flatMap Item.spelling ++ cs)) (a :: (used ++ left)) = _
        rw [expand_verb ha.symm, ih hfits, Functor.map_map]
        show _ = (fun text => (a.text.toList ++ fill items used) ++ text) <$> expand cs left
        simp only [List.append_assoc]

/-- Items that fit do not change what is wrong behind them. -/
theorem expand_error {items : List Item} {used : List Value} (hfits : types items = used.map Value.type)
    {cs : List Char} {left : List Value} {fault : FormatFault} (h : expand cs left = .error fault) :
    expand (items.flatMap Item.spelling ++ cs) (used ++ left) = .error fault := by
  rw [expand_items hfits, h]
  rfl

/-- A verb stops at once, if there is no value for it. -/
theorem expand_verb_error {v : Verb} {args : List Value} {fault : FormatFault}
    (h : argument v.letter args = .error fault) (cs : List Char) :
    expand ('%' :: v.letter :: cs) args = .error fault := by
  rw [expand_letter v.letter_ne_percent, h]
  rfl

/-- The fault of a format is what is wrong at the leftmost place. -/
theorem Offends.expand {cs rest : List Char} {items : List Item} {args : List Value} {fault : FormatFault}
    (h : Offends items rest args fault) (hsplit : Split cs items rest) :
    Format.expand cs args = .error fault := by
  rw [hsplit.text]
  cases h with
  | @missing before after v split fits =>
    -- all values are used by the verbs in front of this one
    rw [split, List.flatMap_append, List.append_assoc, ← List.append_nil args]
    refine expand_error fits (expand_verb_error ?_ (after.flatMap Item.spelling ++ rest))
    simp [argument, verbType?_letter]
  | @mismatch before after v used left a split given fits differs =>
    rw [split, List.flatMap_append, List.append_assoc, given]
    refine expand_error fits (expand_verb_error ?_ (after.flatMap Item.spelling ++ rest))
    simp [argument, verbType?_letter, differs]
  | dangling given fits lone =>
    rw [given, lone]
    exact expand_error fits (by rw [Format.expand, if_pos rfl])
  -- a letter behind a percent sign that ends the split is no verb
  | @unknown used left x others given fits percent =>
    have hends := percent ▸ hsplit.ends
    cases hends with
    | unknown _ notPercent noVerb =>
      rw [given, percent]
      refine expand_error fits ?_
      rw [expand_letter notPercent]
      simp [argument, verbType?_eq_none noVerb, bind, Except.bind]
  | unused given fits whole surplus =>
    rw [given, whole]
    exact expand_error fits (by rw [expand_nil, if_neg surplus])

/-- A format that fits comes to the characters of its items with the values put in. -/
theorem Split.expand {cs : List Char} {items : List Item} {args : List Value} (hsplit : Split cs items [])
    (hfits : types items = args.map Value.type) : Format.expand cs args = .ok (fill items args) := by
  rw [hsplit.text, ← List.append_nil args, expand_items hfits, expand_nil, if_pos rfl]
  simp [Functor.map, Except.map]

end Format

/-- Formatting is exact. A format is split into items in exactly one way. Formatting gives a text if and
only if the items are the whole format and their verbs ask for the types of the values, all of them and no
others; the text is then that of the items with the values put in. It gives a fault if and only if this is
the one at the leftmost offending place; that values are left over is a fault only of a format that fits
as a whole. -/
theorem format_exact (fmt : String) (args : List Value) : ∃ items rest,
    Format.Split fmt.toList items rest ∧
    (∀ items' rest', Format.Split fmt.toList items' rest' → items' = items ∧ rest' = rest) ∧
    (∀ text, format fmt args = .ok text ↔
      rest = [] ∧ Format.types items = args.map Value.type ∧
        text = String.ofList (Format.fill items args)) ∧
    ∀ fault, format fmt args = .error fault ↔ Format.Offends items rest args fault := by
  obtain ⟨items, rest, hsplit⟩ := Format.exists_split fmt.toList
  have hfits : rest = [] → Format.types items = args.map Value.type →
      format fmt args = .ok (String.ofList (Format.fill items args)) := by
    rintro rfl htypes
    rw [format, hsplit.expand htypes]
    rfl
  have hoffends : ∀ fault, Format.Offends items rest args fault → format fmt args = .error fault := by
    intro fault h
    rw [format, h.expand hsplit]
    rfl
  have htotal := Format.fits_or_offends items hsplit.ends args
  refine ⟨items, rest, hsplit, fun _ _ h => hsplit.unique h, fun text => ⟨fun h => ?_, ?_⟩,
    fun fault => ⟨fun h => ?_, hoffends fault⟩⟩
  -- one of the two cases holds, and formatting has one result only
  · rcases htotal with ⟨hrest, htypes⟩ | ⟨fault, hfault⟩
    · exact ⟨hrest, htypes, Except.ok.inj (h.symm.trans (hfits hrest htypes))⟩
    · cases h.symm.trans (hoffends fault hfault)
  · rintro ⟨hrest, htypes, rfl⟩
    exact hfits hrest htypes
  · rcases htotal with ⟨hrest, htypes⟩ | ⟨fault', hfault⟩
    · cases h.symm.trans (hfits hrest htypes)
    · cases h.symm.trans (hoffends fault' hfault)
      exact hfault

end Primer
