import Pipeline.Proofs.Lexing
import Pipeline.Proofs.Rounding

/-!
# Lossless — tokens and the text they are cut from

Cutting a text into tokens keeps all of it but the blanks around the tokens, and writing tokens out
with blanks between them is undone by cutting (`Token.lex_lossless`).

* `Token.takeOne_eq`: a token takes up its spelling, whatever follows.
* `Token.eq_spread_of_cut`, `Token.cut_spread`: the same for lists of tokens, with the blanks behind
  each token in a list of its own (`Token.spread`).
* `Token.lex_trimBlanks`: blanks at the ends of a text change none of its tokens.
-/

namespace Pipeline.Token

open Text (Blank)

/-! ### A token and the text behind it -/

theorem spanDigits_eq (cs : List Char) :
    cs = (Decimal.spanDigits cs).1 ++ (Decimal.spanDigits cs).2 ∧
      ∀ c ∈ (Decimal.spanDigits cs).1, c.isDigit = true :=
  ⟨List.takeWhile_append_dropWhile.symm, List.all_eq_true.mp List.all_takeWhile⟩

theorem takeFraction_eq (cs : List Char) :
    cs = (if (takeFraction cs).1.isEmpty then [] else '.' :: (takeFraction cs).1) ++
        (takeFraction cs).2 ∧
      ∀ c ∈ (takeFraction cs).1, c.isDigit = true := by
  unfold takeFraction
  split
  · next d cs =>
      by_cases hd : d.isDigit = true
      · obtain ⟨heq, hdigits⟩ := spanDigits_eq (d :: cs)
        have hne : (Decimal.spanDigits (d :: cs)).1.isEmpty = false := by
          rw [Decimal.spanDigits, List.takeWhile_cons_of_pos hd]
          rfl
        rw [if_pos hd]
        refine ⟨?_, hdigits⟩
        rw [hne, if_neg Bool.false_ne_true, List.cons_append, ← heq]
      · rw [if_neg hd]
        exact ⟨rfl, List.forall_mem_nil _⟩
  · exact ⟨rfl, List.forall_mem_nil _⟩

theorem takeNumber_eq {d : Char} {cs rest : List Char} {t : Token} (hd : d.isDigit = true)
    (h : takeNumber d cs = (t, rest)) : d :: cs = t.spelling ++ rest ∧ t.Valid := by
  obtain ⟨ds, tail, hwhole, hcs, hds, hzero⟩ : ∃ ds tail,
      (if d = '0' then ([], cs) else Decimal.spanDigits cs) = (ds, tail) ∧ cs = ds ++ tail ∧
        (∀ c ∈ ds, c.isDigit = true) ∧ (d = '0' → ds = []) := by
    by_cases hzero : d = '0'
    · exact ⟨[], cs, if_pos hzero, rfl, nofun, fun _ => rfl⟩
    · obtain ⟨hcs, hds⟩ := spanDigits_eq cs
      exact ⟨_, _, if_neg hzero, hcs, hds, fun heq => absurd heq hzero⟩
  obtain ⟨htail, hfraction⟩ := takeFraction_eq tail
  simp only [takeNumber, hwhole] at h
  cases h
  refine ⟨?_, d, ds, rfl, ?_, hzero⟩
  · rw [hcs, spelling, List.append_assoc, ← htail]
    rfl
  · rw [List.cons_append, List.forall_mem_cons, List.forall_mem_append]
    exact ⟨hd, hds, hfraction⟩

theorem takeText_eq {q : Quote} {cs rest : List Char} {t : Token}
    (h : takeText q cs = .ok (t, rest)) : q.char :: cs = t.spelling ++ rest ∧ t.Valid := by
  unfold takeText at h
  split at h
  · cases h
  · next c rest hdrop =>
      cases h
      have hc : c = q.char := by
        have hnot := List.head?_dropWhile_not (· ≠ q.char) cs
        rw [hdrop] at hnot
        simpa using hnot
      subst hc
      constructor
      · rw [spelling, List.cons_append, List.cons_append, List.append_assoc, List.singleton_append,
          ← hdrop, List.takeWhile_append_dropWhile]
      · intro hmem
        have hne := List.all_eq_true.mp List.all_takeWhile _ hmem
        simp at hne

theorem symbol?_eq {cs rest : List Char} {s : Symbol} (h : symbol? cs = some (s, rest)) :
    cs = s.chars ++ rest := by
  unfold symbol? at h
  split at h
  all_goals
    simp only [Option.some.injEq, Prod.mk.injEq, reduceCtorEq] at h
    try (obtain ⟨rfl, rfl⟩ := h; rfl)

/-- **A token takes up its spelling**, and is one that a text can hold. -/
theorem takeOne_eq {c : Char} {cs rest : List Char} {t : Token}
    (h : takeOne c cs = .ok (t, rest)) : c :: cs = t.spelling ++ rest ∧ t.Valid := by
  unfold takeOne at h
  split at h
  · next hd => exact takeNumber_eq hd (Except.ok.inj h)
  split at h
  · next hc =>
      subst hc
      exact takeText_eq (q := .single) h
  split at h
  · next hc =>
      subst hc
      exact takeText_eq (q := .double) h
  split at h
  · next hstart =>
      cases h
      refine ⟨?_, c, _, rfl, hstart, List.all_eq_true.mp List.all_takeWhile⟩
      exact congrArg (c :: ·) List.takeWhile_append_dropWhile.symm
  split at h
  · next hsymbol =>
      cases h
      exact ⟨symbol?_eq hsymbol, trivial⟩
  · cases h

/-! ### Tokens with blanks around them -/

/-- Tokens written out in order, with `lead` before them and a text behind each of them. -/
def spread (lead : List Char) (parts : List (Token × List Char)) : List Char :=
  lead ++ parts.flatMap fun part => part.1.spelling ++ part.2

theorem cut_append_of_blank {lead : List Char} (h : Blank lead) (rest : List Char) :
    cut (lead ++ rest) = cut rest := by
  induction lead with
  | nil => rfl
  | cons c lead ih =>
      obtain ⟨hc, hlead⟩ := List.forall_mem_cons.mp h
      rw [List.cons_append, cut_blank hc, ih hlead]

theorem isBlank_of_isNamePart {c : Char} (h : isNamePart c = true) : Text.isBlank c = false := by
  have hclass : isNamePart c = (isNameStart c || c.isDigit) := by
    simp only [isNamePart, isNameStart, Char.isAlphanum]
    cases c.isAlpha <;> cases c.isDigit <;> simp
  rw [hclass, Bool.or_eq_true] at h
  rcases h with hstart | hdigit
  · exact isBlank_of_isNameStart hstart
  · exact isBlank_of_isDigit hdigit

/-- A blank belongs to no token in front of it. -/
theorem extends?_of_isBlank {c : Char} (h : Text.isBlank c = true) (t : Token) :
    t.extends? c = false := by
  have hne : ∀ d, Text.isBlank d = false → decide (c = d) = false := by
    rintro d hd
    refine decide_eq_false ?_
    rintro rfl
    rw [h] at hd
    cases hd
  cases t with
  | number =>
      have hdigit : c.isDigit = false := by
        refine Bool.eq_false_iff.mpr fun hd => ?_
        rw [isBlank_of_isDigit hd] at h
        cases h
      simp only [extends?, hdigit, Bool.false_or]
      exact hne '.' (by decide)
  | text => rfl
  | name =>
      refine Bool.eq_false_iff.mpr fun hpart => ?_
      rw [isBlank_of_isNamePart hpart] at h
      cases h
  | symbol s =>
      cases s
      case times => exact hne '*' (by decide)
      case bang | less | greater => exact hne '=' (by decide)
      all_goals rfl

theorem spread_cons (lead : List Char) (part : Token × List Char)
    (parts : List (Token × List Char)) :
    spread lead (part :: parts) = lead ++ (part.1.spelling ++ spread part.2 parts) := by
  simp only [spread, List.flatMap_cons, List.append_assoc]

/-- **Nothing is lost.**  A text is cut into tokens that it holds in order, with nothing but blanks
around them. -/
theorem eq_spread_of_cut {source : List Char} {ts : List Token} (h : cut source = .ok ts) :
    ∃ lead parts, Blank lead ∧ (∀ part ∈ parts, part.1.Valid ∧ Blank part.2) ∧
      parts.map (·.1) = ts ∧ source = spread lead parts := by
  fun_induction cut source generalizing ts with
  | case1 =>
      cases h
      exact ⟨[], [], nofun, nofun, rfl, rfl⟩
  | case2 c cs hc ih =>
      obtain ⟨lead, parts, hlead, hparts, hmap, rfl⟩ := ih h
      exact ⟨c :: lead, parts, List.forall_mem_cons.mpr ⟨hc, hlead⟩, hparts, hmap, rfl⟩
  | case3 c cs hc t rest htake ih =>
      cases hrest : cut rest with
      | error found =>
          rw [hrest] at h
          cases h
      | ok us =>
          rw [hrest] at h
          cases h
          obtain ⟨hspelling, hvalid⟩ := takeOne_eq htake
          obtain ⟨lead, parts, hlead, hparts, rfl, rfl⟩ := ih hrest
          refine ⟨[], (t, lead) :: parts, nofun, ?_, rfl, ?_⟩
          · exact List.forall_mem_cons.mpr ⟨⟨hvalid, hlead⟩, hparts⟩
          · rw [spread_cons, hspelling, List.nil_append]
  | case4 => cases h

/-- **Blanks keep tokens apart.**  Tokens that are written out with blanks between them are cut
apart again. -/
theorem cut_spread {lead : List Char} {parts : List (Token × List Char)} (hlead : Blank lead)
    (hparts : ∀ part ∈ parts, part.1.Valid ∧ Blank part.2)
    (hgaps : ∀ part ∈ parts.dropLast, part.2 ≠ []) :
    cut (spread lead parts) = .ok (parts.map (·.1)) := by
  induction parts generalizing lead with
  | nil =>
      rw [spread, List.flatMap_nil, cut_append_of_blank hlead, cut_nil]
      rfl
  | cons part parts ih =>
      obtain ⟨⟨hvalid, hgap⟩, hparts⟩ := List.forall_mem_cons.mp hparts
      have hlater : ∀ part ∈ parts.dropLast, part.2 ≠ [] := fun p hp => by
        cases parts with
        | nil => cases hp
        | cons next parts => exact hgaps p (List.mem_cons_of_mem part hp)
      -- a token without a blank behind it is the last one
      have hend : part.1.EndsBefore (spread part.2 parts) := by
        intro c hc
        cases hpart : part.2 with
        | cons b gap =>
            rw [hpart] at hc hgap
            cases hc
            exact extends?_of_isBlank (hgap c (List.mem_cons_self ..)) part.1
        | nil =>
            cases parts with
            | nil =>
                rw [hpart] at hc
                cases hc
            | cons next parts => exact absurd hpart (hgaps part (List.mem_cons_self ..))
      rw [spread_cons, cut_append_of_blank hlead, cut_spelling hvalid hend, ih hgap hparts hlater]
      rfl

/-! ### Blanks at the ends -/

section

variable {bs : List Char}

theorem takeWhile_append_blank {p : Char → Bool} (hp : ∀ c, Text.isBlank c = true → p c = false)
    (hbs : Blank bs) (cs : List Char) :
    (cs ++ bs).takeWhile p = cs.takeWhile p ∧ (cs ++ bs).dropWhile p = cs.dropWhile p ++ bs := by
  induction cs with
  | nil =>
      cases bs with
      | nil => exact ⟨rfl, rfl⟩
      | cons b bs =>
          have hb := hp b (hbs b (List.mem_cons_self ..))
          simp [hb]
  | cons c cs ih => cases hc : p c <;> simp [hc, ih]

theorem isDigit_of_isBlank {c : Char} (h : Text.isBlank c = true) : c.isDigit = false :=
  Bool.eq_false_iff.mpr fun hd => by
    rw [isBlank_of_isDigit hd] at h
    cases h

theorem isNamePart_of_isBlank {c : Char} (h : Text.isBlank c = true) : isNamePart c = false :=
  extends?_of_isBlank h (.name [])

theorem spanDigits_append_blank (hbs : Blank bs) (cs : List Char) :
    Decimal.spanDigits (cs ++ bs) =
      ((Decimal.spanDigits cs).1, (Decimal.spanDigits cs).2 ++ bs) := by
  obtain ⟨htake, hdrop⟩ := takeWhile_append_blank (fun c => isDigit_of_isBlank) hbs cs
  rw [Decimal.spanDigits, htake, hdrop]
  rfl

theorem takeFraction_of_ne {c : Char} (h : c ≠ '.') (cs : List Char) :
    takeFraction (c :: cs) = ([], c :: cs) := by
  unfold takeFraction
  split
  · next heq => exact absurd (List.cons.inj heq).1 h
  · rfl

theorem takeFraction_append_blank (hbs : Blank bs) (cs : List Char) :
    takeFraction (cs ++ bs) = ((takeFraction cs).1, (takeFraction cs).2 ++ bs) := by
  cases cs with
  | nil =>
      cases bs with
      | nil => rfl
      | cons b bs =>
          have hb : b ≠ '.' := by
            rintro rfl
            exact absurd (hbs '.' (List.mem_cons_self ..)) (by decide)
          exact takeFraction_of_ne hb bs
  | cons c cs =>
      by_cases hc : c = '.'
      · subst hc
        cases cs with
        | nil =>
            -- a point with a blank behind it begins no fraction
            cases bs with
            | nil => rfl
            | cons b bs =>
                simp [takeFraction, isDigit_of_isBlank (hbs b (List.mem_cons_self ..))]
        | cons d cs =>
            by_cases hd : d.isDigit = true
            · simpa [takeFraction, hd] using spanDigits_append_blank hbs (d :: cs)
            · simp [takeFraction, hd]
      · rw [List.cons_append, takeFraction_of_ne hc, takeFraction_of_ne hc]
        rfl

theorem takeNumber_append_blank (hbs : Blank bs) (d : Char) (cs : List Char) :
    takeNumber d (cs ++ bs) = ((takeNumber d cs).1, (takeNumber d cs).2 ++ bs) := by
  have hwhole : (if d = '0' then ([], cs ++ bs) else Decimal.spanDigits (cs ++ bs)) =
      ((if d = '0' then ([], cs) else Decimal.spanDigits cs).1,
        (if d = '0' then ([], cs) else Decimal.spanDigits cs).2 ++ bs) := by
    split
    · rfl
    · exact spanDigits_append_blank hbs cs
  simp only [takeNumber, hwhole, takeFraction_append_blank hbs]

theorem symbol?_chars (s : Symbol) {rest : List Char} (h : EndsBefore (.symbol s) rest) :
    symbol? (s.chars ++ rest) = some (s, rest) := by
  cases s
  case times | bang | less | greater =>
    cases rest with
    | nil => rfl
    | cons c rest =>
        have hc := of_decide_eq_false (h c rfl)
        simp [symbol?, Symbol.chars, hc]
  all_goals rfl

theorem endsBefore_of_symbol? {cs rest : List Char} {s : Symbol}
    (h : symbol? cs = some (s, rest)) : EndsBefore (.symbol s) rest := by
  intro c hc
  obtain ⟨tail, rfl⟩ : ∃ tail, rest = c :: tail := List.head?_eq_some_iff.mp hc
  rw [symbol?_eq h] at h
  cases s
  case times | bang | less | greater =>
    -- the longer symbol would have been read
    refine decide_eq_false ?_
    rintro rfl
    cases h
  all_goals rfl

theorem EndsBefore.append_blank {t : Token} {rest : List Char} (h : t.EndsBefore rest)
    (hbs : Blank bs) : t.EndsBefore (rest ++ bs) := by
  cases rest with
  | nil => exact fun c hc => extends?_of_isBlank (hbs c (List.mem_of_mem_head? hc)) t
  | cons c rest => exact h

theorem EndsBefore.of_append {t : Token} {rest : List Char} (h : t.EndsBefore (rest ++ bs)) :
    t.EndsBefore rest := by
  cases rest with
  | nil => exact nofun
  | cons c rest => exact h

theorem isBlank_of_mem_chars {s : Symbol} {c : Char} (h : c ∈ s.chars) :
    Text.isBlank c = false := by
  have hnone : s.chars.any Text.isBlank = false := by cases s <;> decide
  exact Bool.eq_false_iff.mpr (List.any_eq_false.mp hnone c h)

theorem symbol?_append_blank (hbs : Blank bs) (cs : List Char) :
    symbol? (cs ++ bs) = (symbol? cs).map fun p => (p.1, p.2 ++ bs) := by
  cases h : symbol? cs with
  | some p =>
      obtain ⟨s, rest⟩ := p
      have hend := (endsBefore_of_symbol? h).append_blank hbs
      rw [symbol?_eq h, List.append_assoc, symbol?_chars s hend, Option.map_some]
  | none =>
      cases h' : symbol? (cs ++ bs) with
      | none => rfl
      | some p =>
          obtain ⟨s, rest⟩ := p
          obtain ⟨rest', hcs, hend⟩ :
              ∃ rest', cs = s.chars ++ rest' ∧ EndsBefore (.symbol s) rest' := by
            rcases List.append_eq_append_iff.mp (symbol?_eq h') with
              ⟨excess, hchars, hexcess⟩ | ⟨rest', hcs, rfl⟩
            · -- the symbol would end with a blank
              cases excess with
              | nil => exact ⟨[], by rw [hchars, List.append_nil, List.append_nil], nofun⟩
              | cons b excess =>
                  have hb : Text.isBlank b = false :=
                    isBlank_of_mem_chars (show b ∈ s.chars by simp [hchars])
                  rw [hbs b (by simp [hexcess])] at hb
                  cases hb
            · exact ⟨rest', hcs, (endsBefore_of_symbol? h').of_append⟩
          rw [hcs, symbol?_chars s hend] at h
          cases h

theorem takeText_of_not_mem {q : Quote} {cs : List Char} (h : q.char ∉ cs) :
    takeText q cs = .error .endOfInput := by
  have hne : ∀ c ∈ cs, decide (c ≠ q.char) = true := fun c hc =>
    decide_eq_true fun heq => h (heq ▸ hc)
  have hdrop : (cs ++ []).dropWhile (· ≠ q.char) = [] := dropWhile_append_of_head hne nofun
  rw [List.append_nil] at hdrop
  rw [takeText, hdrop]

theorem takeText_append_blank (hbs : Blank bs) (q : Quote) (cs : List Char) :
    (takeText q (cs ++ bs)).toOption = (takeText q cs).toOption.map fun p => (p.1, p.2 ++ bs) := by
  by_cases hq : q.char ∈ cs
  · obtain ⟨body, rest, rfl, hbody⟩ := List.eq_append_cons_of_mem hq
    rw [takeText_append hbody, List.append_assoc, List.cons_append, takeText_append hbody]
    rfl
  · have hq' : q.char ∉ cs ++ bs := by
      intro hmem
      rcases List.mem_append.mp hmem with hcs | hblank
      · exact hq hcs
      · exact absurd (hbs _ hblank) (by rw [isBlank_quote]; exact nofun)
    rw [takeText_of_not_mem hq, takeText_of_not_mem hq']
    rfl

/-- Blanks behind a text belong to none of its tokens. -/
theorem takeOne_append_blank (hbs : Blank bs) (c : Char) (cs : List Char) :
    (takeOne c (cs ++ bs)).toOption =
      (takeOne c cs).toOption.map fun p => (p.1, p.2 ++ bs) := by
  unfold takeOne
  split
  · rw [takeNumber_append_blank hbs]
    rfl
  split
  · exact takeText_append_blank hbs .single cs
  split
  · exact takeText_append_blank hbs .double cs
  split
  · obtain ⟨htake, hdrop⟩ := takeWhile_append_blank (fun c => isNamePart_of_isBlank) hbs cs
    rw [htake, hdrop]
    rfl
  · rw [← List.cons_append, symbol?_append_blank hbs]
    cases symbol? (c :: cs) <;> rfl

theorem cut_of_takeOne_error {c : Char} {cs : List Char} {found : Found}
    (hc : Text.isBlank c = false) (h : takeOne c cs = .error found) :
    cut (c :: cs) = .error found := by
  rw [cut.eq_def]
  dsimp only
  rw [hc, if_neg nofun]
  split
  · next h' => rw [h] at h'; cases h'
  · next h' => rw [h] at h'; cases h'; rfl

theorem toOption_map {ε α β : Type} (f : α → β) (x : Except ε α) :
    (x.map f).toOption = x.toOption.map f := by
  cases x <;> rfl

/-- **Blanks behind a text change none of its tokens**, though perhaps what an error names. -/
theorem toOption_cut_append_blank (hbs : Blank bs) (cs : List Char) :
    (cut (cs ++ bs)).toOption = (cut cs).toOption := by
  fun_induction cut cs with
  | case1 => rw [List.nil_append, cut_of_all_isBlank (List.all_eq_true.mpr hbs)]
  | case2 c cs hc ih => rw [List.cons_append, cut_blank hc, ih]
  | case3 c cs hc t rest htake ih =>
      have happend := takeOne_append_blank hbs c cs
      cases htake' : takeOne c (cs ++ bs) with
      | error found =>
          rw [htake, htake'] at happend
          cases happend
      | ok p =>
          rw [htake, htake'] at happend
          cases happend
          rw [List.cons_append, cut_of_takeOne (Bool.eq_false_iff.mpr hc) htake', toOption_map,
            toOption_map, ih]
  | case4 c cs hc found htake =>
      have happend := takeOne_append_blank hbs c cs
      cases htake' : takeOne c (cs ++ bs) with
      | ok p =>
          rw [htake, htake'] at happend
          cases happend
      | error found' =>
          rw [List.cons_append, cut_of_takeOne_error (Bool.eq_false_iff.mpr hc) htake']
          rfl

theorem cut_of_lex {cs : List Char} {ts : List Token} (h : lex cs = .ok ts) : cut cs = .ok ts := by
  unfold lex at h
  split at h
  · cases h
  · exact h

/-- A text keeps its tokens when the blanks at its ends are trimmed. -/
theorem lex_trimBlanks {cs : List Char} {ts : List Token} (h : lex cs = .ok ts) (hne : ts ≠ []) :
    lex (Text.trimBlanks cs) = .ok ts := by
  obtain ⟨before, after, hbefore, hafter, heq⟩ := Text.eq_append_trimBlanks cs
  have hcut := cut_of_lex h
  rw [heq, List.append_assoc, cut_append_of_blank hbefore] at hcut
  have hoption := toOption_cut_append_blank hafter (Text.trimBlanks cs)
  rw [hcut] at hoption
  cases htrim : cut (Text.trimBlanks cs) with
  | error found =>
      rw [htrim] at hoption
      cases hoption
  | ok us =>
      rw [htrim] at hoption
      cases hoption
      exact lex_of_cut htrim hne

end

/-! ### Cutting and writing -/

/-- **Cutting loses nothing and recovers what was written.**  A text that is cut into tokens is
their spellings in order, with blanks before, between and behind them; tokens that are written out
with at least one blank between any two are cut apart again; and a number among them has the value
that is nearest to the number it denotes. -/
theorem lex_lossless :
    (∀ source ts, lex source = .ok ts →
      ∃ lead parts, Blank lead ∧ (∀ part ∈ parts, part.1.Valid ∧ Blank part.2) ∧
        parts.map (·.1) = ts ∧ source = spread lead parts) ∧
    (∀ lead parts, parts ≠ [] → Blank lead → (∀ part ∈ parts, part.1.Valid ∧ Blank part.2) →
      (∀ part ∈ parts.dropLast, part.2 ≠ []) →
      lex (spread lead parts) = .ok (parts.map (·.1))) ∧
    (∀ whole fraction, Binary64.Nearest false (denoted whole fraction)
      (numberValue whole fraction)) := by
  refine ⟨fun source ts h => eq_spread_of_cut (cut_of_lex h), ?_, nearest_numberValue⟩
  intro lead parts hne hlead hparts hgaps
  refine lex_of_cut (cut_spread hlead hparts hgaps) ?_
  rwa [ne_eq, List.map_eq_nil_iff]

/-- A number, two symbols of which one begins like the other, and a string that holds the other
quote. -/
def apart : List (Token × List Char) :=
  [(.number ['1'] ['5'], [' ']), (.symbol .times, [' ', '\t']), (.symbol .power, ['\n']),
    (.text .double ['\'', ' '], [])]

theorem lex_lossless_apart :
    lex (spread [' '] apart) = .ok (apart.map (·.1)) ∧
      ∃ lead parts, Blank lead ∧ (∀ part ∈ parts, part.1.Valid ∧ Blank part.2) ∧
        parts.map (·.1) = apart.map (·.1) ∧ spread [' '] apart = spread lead parts := by
  have hparts : ∀ part ∈ apart, part.1.Valid ∧ Blank part.2 := by
    simp only [apart, List.forall_mem_cons, List.not_mem_nil, false_implies, implies_true, and_true]
    have hnumber : (Token.number ['1'] ['5']).Valid :=
      ⟨'1', [], rfl, List.all_eq_true.mp (by decide), nofun⟩
    have htext : (Token.text .double ['\'', ' ']).Valid := by
      simp [Valid, Quote.char]
    exact ⟨⟨hnumber, by decide⟩, ⟨trivial, by decide⟩, ⟨trivial, by decide⟩, htext, by decide⟩
  have hlex := lex_lossless.2.1 [' '] apart (by decide) (by decide) hparts (by decide)
  exact ⟨hlex, lex_lossless.1 _ _ hlex⟩

end Pipeline.Token
