import Primer.Proofs.Token.Patterns
import Primer.Proofs.Token.Scan

/-!
# Where literals and comments end

A quoted literal ends at the first quote that no backslash hides, and a block comment with the first star
in front of a slash. The patterns say the same without a notion of being first.

- `Quoted.read_eq_closed`: a literal is closed after a body of its pattern. One that is not closed takes
  the rest of its line (`Quoted.seen_of_read_unclosed`).
- `Escape.decode_eq_some`: the text that a body stands for.
- `blockCommentEnd?_eq_some`: the end of a block comment.
-/

namespace Primer

open Computability Pattern

/-! ## Literals -/

namespace Quoted

open Escape

/-- A body is read up to the quote after it. -/
theorem read_quotedBody {quote : Char} (hquote : IsQuote quote) {body : List Char}
    (h : body ∈ quotedBody quote) (rest : List Char) :
    read quote (body ++ quote :: rest) = .closed body := by
  refine kstar_induction (Q := fun body => read quote (body ++ quote :: rest) = .closed body)
    (read_close quote rest) (fun u v hu hv => ?_) h
  rw [List.append_assoc]
  rcases hu with ⟨c, ⟨hclose, hslash, hline⟩, rfl⟩ | hu
  · rw [List.singleton_append, read_plain hclose hslash hline, hv]
    rfl
  · obtain ⟨_, _, rfl, rfl, d, hline, rfl⟩ := mem_one_mul.mp hu
    rw [List.cons_append, List.singleton_append, read_escape hquote hline, hv]
    rfl

theorem prepend_eq_closed {before body : List Char} {q : Quoted} (h : q.prepend before = .closed body) :
    ∃ more, q = .closed more ∧ body = before ++ more := by
  cases q with
  | closed more =>
    cases h
    exact ⟨more, rfl, rfl⟩
  | unclosed seen => cases h

theorem prepend_eq_unclosed {before seen : List Char} {q : Quoted}
    (h : q.prepend before = .unclosed seen) : ∃ more, q = .unclosed more ∧ seen = before ++ more := by
  cases q with
  | closed body => cases h
  | unclosed more =>
    cases h
    exact ⟨more, rfl, rfl⟩

theorem mem_of_read_closed {quote : Char} {cs body : List Char} (h : read quote cs = .closed body) :
    body ∈ quotedBody quote ∧ ∃ rest, cs = body ++ quote :: rest := by
  -- the reader goes over a pair with a backslash or over a plain character, as the pattern does
  fun_induction read quote cs generalizing body with
  | case1 => cases h
  | case2 =>
    cases h
    exact ⟨Language.nil_mem_kstar _, [], rfl⟩
  | case3 | case4 => cases h
  | case5 d rest =>
    cases h
    exact ⟨Language.nil_mem_kstar _, _, rfl⟩
  | case6 | case7 => cases h
  | case8 d rest hd hclose hline ih =>
    obtain ⟨more, hmore, rfl⟩ := prepend_eq_closed h
    obtain ⟨hbody, tail, rfl⟩ := ih hmore
    have hpair : ['\\', d] ∈ one (· = '\\') * one (· ≠ '\n') :=
      mem_one_mul.mpr ⟨_, _, rfl, rfl, singleton_mem_one hd⟩
    exact ⟨append_mem_kstar (.inr hpair) hbody, tail, rfl⟩
  | case9 c d rest hclose hline hslash ih =>
    obtain ⟨more, hmore, rfl⟩ := prepend_eq_closed h
    obtain ⟨hbody, tail, htail⟩ := ih hmore
    have hplain : [c] ∈ one fun c => c ≠ quote ∧ c ≠ '\\' ∧ c ≠ '\n' :=
      singleton_mem_one ⟨hclose, hslash, hline⟩
    exact ⟨append_mem_kstar (.inl hplain) hbody, tail, by rw [htail]; rfl⟩

/-- A literal is closed if its body is one. -/
theorem read_eq_closed {quote : Char} (hquote : IsQuote quote) {cs body : List Char} :
    read quote cs = .closed body ↔ body ∈ quotedBody quote ∧ ∃ rest, cs = body ++ quote :: rest := by
  constructor
  · exact mem_of_read_closed
  · rintro ⟨hbody, rest, rfl⟩
    exact read_quotedBody hquote hbody rest

/-- A literal that is not closed takes the rest of its line. -/
theorem seen_of_read_unclosed {quote : Char} {cs seen : List Char} (h : read quote cs = .unclosed seen) :
    seen = cs.takeWhile (· ≠ '\n') := by
  -- the cases are those of the reader: it stops at the end of the text, at a line break, or goes on
  fun_induction read quote cs generalizing seen with
  | case1 =>
    cases h
    rfl
  | case2 => cases h
  | case3 =>
    cases h
    rfl
  | case4 c hclose hline =>
    cases h
    simp [hline]
  | case5 => cases h
  | case6 =>
    cases h
    rfl
  | case7 =>
    cases h
    rfl
  -- a backslash takes one more character, unless that is a line break
  | case8 d rest hd hclose hline ih =>
    obtain ⟨more, hmore, rfl⟩ := prepend_eq_unclosed h
    simp [ih hmore, hd]
  | case9 c d rest hclose hline hslash ih =>
    obtain ⟨more, hmore, rfl⟩ := prepend_eq_unclosed h
    rw [ih hmore]
    simp [List.takeWhile_cons, hline]

end Quoted

namespace Escape

theorem meaning?_eq_some {letter c : Char} : meaning? letter = some c ↔ (letter, c) ∈ table := by
  unfold meaning?
  split_ifs <;> simp_all [table, eq_comm]

/-- Decoding gives the text that the body stands for. -/
theorem decode_eq_some {body text : List Char} : decode body = some text ↔ Means body text := by
  constructor
  · intro h
    fun_induction decode body generalizing text with
    | case1 =>
      cases h
      exact .nil
    | case2 => cases h
    | case3 c hc =>
      cases h
      exact .plain hc .nil
    | case4 letter rest ih =>
      obtain ⟨c, hc, h⟩ := Option.bind_eq_some_iff.mp h
      obtain ⟨more, hmore, h⟩ := Option.bind_eq_some_iff.mp h
      cases h
      exact .escape (meaning?_eq_some.mp hc) (ih hmore)
    | case5 c letter rest hc ih =>
      obtain ⟨more, hmore, h⟩ := Option.bind_eq_some_iff.mp h
      cases h
      exact .plain hc (ih hmore)
  · intro h
    induction h with
    | nil => rfl
    | @plain c body text hc _ ih =>
      -- a plain character at the end is read by an equation of its own
      cases body with
      | nil =>
        cases ih
        simp [decode, hc]
      | cons d body => simp [decode, hc, ih]
    | escape known _ ih => simp [decode, meaning?_eq_some.mpr known, ih]

end Escape

/-! ## Block comments -/

theorem blockCommentEnd?_plain {c : Char} (hc : c ≠ '*') (cs : List Char) :
    blockCommentEnd? (c :: cs) = (blockCommentEnd? cs).map (· + 1) := by
  cases cs <;> simp [blockCommentEnd?, hc]

theorem blockCommentEnd?_star {d : Char} (hd : d ≠ '/') (cs : List Char) :
    blockCommentEnd? ('*' :: d :: cs) = (blockCommentEnd? (d :: cs)).map (· + 1) := by
  simp [blockCommentEnd?, hd]

/-- All stars but the last are passed over. -/
theorem blockCommentEnd?_stars {u : List Char} (h : u ∈ stars) (cs : List Char) :
    ∃ k, u.length = k + 1 ∧ blockCommentEnd? (u ++ cs) = (blockCommentEnd? ('*' :: cs)).map (· + k) := by
  obtain ⟨_, v, rfl, rfl, hv⟩ := mem_repeated_one.mp h
  refine ⟨v.length, rfl, ?_⟩
  clear h
  induction v with
  | nil => simp
  | cons d v ih =>
    obtain ⟨rfl, hrest⟩ := List.forall_mem_cons.mp hv
    have hmore := ih hrest
    rw [List.cons_append] at hmore
    rw [List.cons_append, List.cons_append, blockCommentEnd?_star (by decide), hmore, Option.map_map]
    rfl

/-- What belongs to the inside of a comment is passed over. -/
theorem blockCommentEnd?_inside {u : List Char}
    (h : u ∈ one (· ≠ '*') + stars * one fun c => c ≠ '*' ∧ c ≠ '/') (cs : List Char) :
    blockCommentEnd? (u ++ cs) = (blockCommentEnd? cs).map (· + u.length) := by
  rcases h with ⟨c, hc, rfl⟩ | h
  · exact blockCommentEnd?_plain hc cs
  · obtain ⟨u, d, rfl, hu, hstar, hslash⟩ := mem_mul_one.mp h
    obtain ⟨k, hk, hstars⟩ := blockCommentEnd?_stars hu (d :: cs)
    rw [List.append_assoc, List.singleton_append, hstars, blockCommentEnd?_star hslash,
      blockCommentEnd?_plain hstar, Option.map_map, Option.map_map, List.length_append, hk]
    congr 1
    funext n
    simp only [Function.comp_apply, List.length_singleton]
    omega

/-- A comment ends where its pattern says. -/
theorem blockCommentEnd?_append {v : List Char} (h : v ∈ commentTail) (rest : List Char) :
    blockCommentEnd? (v ++ rest) = some v.length := by
  obtain ⟨body, hbody, tail, htail, rfl⟩ := Language.mem_mul.mp h
  have hend : blockCommentEnd? (tail ++ rest) = some tail.length := by
    obtain ⟨u, _, rfl, hu, rfl⟩ := mem_mul_one.mp htail
    obtain ⟨k, hk, hstars⟩ := blockCommentEnd?_stars hu ('/' :: rest)
    rw [List.append_assoc, List.singleton_append, hstars, List.length_append, hk]
    simp only [blockCommentEnd?, and_self, if_true, Option.map_some, List.length_singleton]
    congr 1
    omega
  refine kstar_induction (Q := fun body => blockCommentEnd? (body ++ tail ++ rest) =
    some (body ++ tail).length) hend (fun u w hu hw => ?_) hbody
  rw [List.append_assoc, List.append_assoc, ← List.append_assoc w, blockCommentEnd?_inside hu, hw]
  simp [Nat.add_comm]

/-- The inside of a comment after a star, with the end of the comment. -/
def afterStar : Language Char :=
  (one (· = '*'))∗ * (one (· = '/') + one (fun c => c ≠ '*' ∧ c ≠ '/') * commentTail)

theorem star_mem_afterStar {v : List Char} (h : v ∈ afterStar) : '*' :: v ∈ afterStar := by
  obtain ⟨u, hu, w, hw, rfl⟩ := Language.mem_mul.mp h
  have hstar : ['*'] ∈ one (· = '*') := singleton_mem_one rfl
  exact Language.append_mem_mul (append_mem_kstar hstar hu) hw

theorem inside_mem_commentTail {u v : List Char}
    (hu : u ∈ one (· ≠ '*') + stars * one fun c => c ≠ '*' ∧ c ≠ '/') (hv : v ∈ commentTail) :
    u ++ v ∈ commentTail := by
  obtain ⟨body, hbody, tail, htail, rfl⟩ := Language.mem_mul.mp hv
  rw [← List.append_assoc]
  exact Language.append_mem_mul (append_mem_kstar hu hbody) htail

theorem star_mem_commentTail {v : List Char} (h : v ∈ afterStar) : '*' :: v ∈ commentTail := by
  obtain ⟨u, hu, w, hw, rfl⟩ := Language.mem_mul.mp h
  have hstars : '*' :: u ∈ stars := mem_one_mul.mpr ⟨'*', u, rfl, rfl, hu⟩
  rcases hw with hw | hw
  · exact Language.append_mem_mul (Language.nil_mem_kstar _) (Language.append_mem_mul hstars hw)
  · obtain ⟨d, w, rfl, hd, hw⟩ := mem_one_mul.mp hw
    rw [← List.cons_append, List.append_cons]
    exact inside_mem_commentTail (.inr (Language.append_mem_mul hstars (singleton_mem_one hd))) hw

/-- Up to the end that was found there is a comment. The second part is about a text after a star, which
may end the comment with its first character. -/
theorem mem_of_blockCommentEnd? (cs : List Char) :
    (∀ n, blockCommentEnd? cs = some n →
      ∃ v rest, cs = v ++ rest ∧ v.length = n ∧ v ∈ commentTail) ∧
    ∀ n, blockCommentEnd? ('*' :: cs) = some n →
      ∃ v rest, cs = v ++ rest ∧ v.length + 1 = n ∧ v ∈ afterStar := by
  induction cs with
  | nil => exact ⟨fun _ h => (nomatch h), fun _ h => (nomatch h)⟩
  | cons c cs ih =>
    obtain ⟨hplain, hstar⟩ := ih
    constructor
    · intro n h
      -- a star is the only character that may begin the terminator
      by_cases hc : c = '*'
      · subst hc
        obtain ⟨v, rest, rfl, hlength, hv⟩ := hstar n h
        exact ⟨'*' :: v, rest, rfl, hlength, star_mem_commentTail hv⟩
      · rw [blockCommentEnd?_plain hc] at h
        obtain ⟨k, hk, rfl⟩ := Option.map_eq_some_iff.mp h
        obtain ⟨v, rest, rfl, rfl, hv⟩ := hplain k hk
        exact ⟨c :: v, rest, rfl, rfl, inside_mem_commentTail (.inl (singleton_mem_one hc)) hv⟩
    · intro n h
      by_cases hslash : c = '/'
      · subst hslash
        simp only [blockCommentEnd?, and_self, if_true, Option.some.injEq] at h
        refine ⟨['/'], cs, rfl, h, ?_⟩
        exact Language.append_mem_mul (Language.nil_mem_kstar _) (.inl (singleton_mem_one rfl))
      · rw [blockCommentEnd?_star hslash] at h
        obtain ⟨k, hk, rfl⟩ := Option.map_eq_some_iff.mp h
        -- behind a star that ends nothing, another star may still do so
        by_cases hc : c = '*'
        · subst hc
          obtain ⟨v, rest, rfl, hlength, hv⟩ := hstar k hk
          exact ⟨'*' :: v, rest, rfl, by rw [← hlength]; rfl, star_mem_afterStar hv⟩
        · rw [blockCommentEnd?_plain hc] at hk
          obtain ⟨j, hj, rfl⟩ := Option.map_eq_some_iff.mp hk
          obtain ⟨v, rest, rfl, rfl, hv⟩ := hplain j hj
          have hrest : c :: v ∈ one (fun c => c ≠ '*' ∧ c ≠ '/') * commentTail :=
            mem_one_mul.mpr ⟨c, v, rfl, ⟨hc, hslash⟩, hv⟩
          exact ⟨c :: v, rest, rfl, rfl, Language.append_mem_mul (Language.nil_mem_kstar _) (.inr hrest)⟩

theorem blockCommentEnd?_eq_some {cs : List Char} {n : Nat} :
    blockCommentEnd? cs = some n ↔ ∃ v rest, cs = v ++ rest ∧ v.length = n ∧ v ∈ commentTail := by
  constructor
  · exact (mem_of_blockCommentEnd? cs).1 n
  · rintro ⟨v, rest, rfl, rfl, hv⟩
    exact blockCommentEnd?_append hv rest

end Primer
