import Pipeline.Expr.Lexer

/-!
# Lexing — tokens read off a text

A token that stands at the front of a text is read from there (`Token.cut_spelling`), if it is one
that a text can hold (`Token.Valid`) and no character behind it could belong to it too
(`Token.EndsBefore`).  Each kind of token has one lemma that says how far its characters reach; what
ends a number or a name is that a run of characters of one class ends there
(`Token.takeWhile_append_of_head`).
-/

namespace Pipeline.Token

/-! ### Runs of characters -/

section Runs

variable {p : Char → Bool} {run rest : List Char}

theorem takeWhile_append_of_head (hrun : ∀ c ∈ run, p c = true)
    (hrest : ∀ c ∈ rest.head?, p c = false) : (run ++ rest).takeWhile p = run := by
  rw [List.takeWhile_append_of_pos hrun]
  cases rest with
  | nil => exact List.append_nil run
  | cons c rest => rw [List.takeWhile_cons, hrest c rfl, if_neg nofun, List.append_nil]

theorem dropWhile_append_of_head (hrun : ∀ c ∈ run, p c = true)
    (hrest : ∀ c ∈ rest.head?, p c = false) : (run ++ rest).dropWhile p = rest := by
  rw [List.dropWhile_append_of_pos hrun]
  cases rest with
  | nil => rfl
  | cons c rest => rw [List.dropWhile_cons, hrest c rfl, if_neg nofun]

end Runs

theorem spanDigits_append {ds rest : List Char} (hds : ∀ c ∈ ds, c.isDigit = true)
    (hrest : ∀ c ∈ rest.head?, c.isDigit = false) :
    Decimal.spanDigits (ds ++ rest) = (ds, rest) := by
  rw [Decimal.spanDigits, takeWhile_append_of_head hds hrest, dropWhile_append_of_head hds hrest]

/-! ### What a text can hold -/

/-- A text can hold the token: a number has digits, and no zero before others; a string does not
hold its quote; a name begins like one and goes on like one. -/
def Valid : Token → Prop
  | .number whole fraction =>
    ∃ d ds, whole = d :: ds ∧ (∀ c ∈ whole ++ fraction, c.isDigit = true) ∧ (d = '0' → ds = [])
  | .text quote body => quote.char ∉ body
  | .name chars =>
    ∃ c cs, chars = c :: cs ∧ isNameStart c = true ∧ ∀ d ∈ cs, isNamePart d = true
  | .symbol _ => True

/-- The character could belong to the token if it stood behind it. -/
def extends? : Token → Char → Bool
  | .number _ _, c => c.isDigit || c = '.'
  | .text _ _, _ => false
  | .name _, c => isNamePart c
  | .symbol .times, c => c = '*'
  | .symbol .bang, c | .symbol .less, c | .symbol .greater, c => c = '='
  | .symbol _, _ => false

/-- The token ends where `rest` begins. -/
def EndsBefore (t : Token) (rest : List Char) : Prop :=
  ∀ c ∈ rest.head?, t.extends? c = false

/-! ### Classes of characters -/

theorem toNat_of_isDigit {c : Char} (h : c.isDigit = true) : 48 ≤ c.toNat ∧ c.toNat ≤ 57 := by
  simp only [Char.isDigit, Bool.and_eq_true, decide_eq_true_eq, ge_iff_le,
    UInt32.le_iff_toNat_le] at h
  exact h

theorem toNat_of_isNameStart {c : Char} (h : isNameStart c = true) :
    c.toNat = 36 ∨ 65 ≤ c.toNat ∧ c.toNat ≤ 122 := by
  have halpha : c.isAlpha = (c.isUpper || c.isLower) := rfl
  have hupper : c.isUpper = decide (c.val ≥ 'A'.val ∧ c.val ≤ 'Z'.val) := rfl
  have hlower : c.isLower = (decide (c.val ≥ 'a'.val) && decide (c.val ≤ 'z'.val)) := rfl
  simp only [isNameStart, halpha, hupper, hlower, Bool.or_eq_true, Bool.and_eq_true,
    decide_eq_true_eq, ge_iff_le, UInt32.le_iff_toNat_le] at h
  rcases h with ((⟨hl, hu⟩ | ⟨hl, hu⟩) | rfl) | rfl
  · exact .inr ⟨hl, Nat.le_trans hu (by decide)⟩
  · exact .inr ⟨Nat.le_trans (by decide) hl, hu⟩
  · exact .inr (by decide)
  · exact .inl rfl

theorem isBlank_of_isDigit {c : Char} (h : c.isDigit = true) : Text.isBlank c = false := by
  have := toNat_of_isDigit h
  simp only [Text.isBlank, Bool.or_eq_false_iff, Bool.and_eq_false_iff, beq_eq_false_iff_ne,
    decide_eq_false_iff_not]
  omega

theorem isBlank_of_isNameStart {c : Char} (h : isNameStart c = true) :
    Text.isBlank c = false := by
  have := toNat_of_isNameStart h
  simp only [Text.isBlank, Bool.or_eq_false_iff, Bool.and_eq_false_iff, beq_eq_false_iff_ne,
    decide_eq_false_iff_not]
  omega

theorem isDigit_of_isNameStart {c : Char} (h : isNameStart c = true) : c.isDigit = false := by
  have hname := toNat_of_isNameStart h
  refine Bool.eq_false_iff.mpr fun hd => ?_
  have hdigit := toNat_of_isDigit hd
  omega

theorem ne_quote_of_isNameStart {c : Char} (h : isNameStart c = true) (q : Quote) :
    c ≠ q.char := by
  rintro rfl
  cases q <;> exact absurd h (by decide)

theorem isBlank_quote (q : Quote) : Text.isBlank q.char = false := by
  cases q <;> decide

/-! ### One token -/

theorem takeFraction_append {fraction rest : List Char}
    (hf : ∀ c ∈ fraction, c.isDigit = true)
    (hrest : ∀ c ∈ rest.head?, (c.isDigit || c = '.') = false) :
    takeFraction ((if fraction.isEmpty then [] else '.' :: fraction) ++ rest) =
      (fraction, rest) := by
  cases fraction with
  | nil =>
      -- nothing but a point with a digit behind it begins a fraction
      unfold takeFraction
      split
      · next h =>
          have h : rest = _ := h
          exact absurd (hrest '.' (by rw [h]; rfl)) (by decide)
      · rfl
  | cons d fraction =>
      have hd : d.isDigit = true := hf d (List.mem_cons_self ..)
      have hspan := spanDigits_append hf fun c hc => (Bool.or_eq_false_iff.mp (hrest c hc)).1
      simpa only [List.isEmpty_cons, Bool.false_eq_true, if_false, List.cons_append, takeFraction,
        hd, if_true] using hspan

theorem isDigit_head?_fraction {fraction rest : List Char}
    (hrest : ∀ c ∈ rest.head?, (c.isDigit || c = '.') = false) :
    ∀ c ∈ ((if fraction.isEmpty then [] else '.' :: fraction) ++ rest).head?,
      c.isDigit = false := by
  intro c hc
  cases fraction with
  | nil => exact (Bool.or_eq_false_iff.mp (hrest c hc)).1
  | cons d fraction =>
      cases hc
      rfl

theorem takeNumber_append {d : Char} {ds tail fraction rest : List Char}
    (hds : ∀ c ∈ ds, c.isDigit = true) (hzero : d = '0' → ds = [])
    (htail : ∀ c ∈ tail.head?, c.isDigit = false) (hf : takeFraction tail = (fraction, rest)) :
    takeNumber d (ds ++ tail) = (.number (d :: ds) fraction, rest) := by
  have hwhole : (if d = '0' then ([], ds ++ tail) else Decimal.spanDigits (ds ++ tail)) =
      (ds, tail) := by
    by_cases h : d = '0'
    · rw [if_pos h, hzero h, List.nil_append]
    · rw [if_neg h, spanDigits_append hds htail]
  simp only [takeNumber, hwhole, hf]

theorem takeText_append {q : Quote} {body : List Char} (h : q.char ∉ body) (rest : List Char) :
    takeText q (body ++ q.char :: rest) = .ok (.text q body, rest) := by
  have hbody : ∀ c ∈ body, decide (c ≠ q.char) = true := fun c hc =>
    decide_eq_true fun heq => h (heq ▸ hc)
  have hhead : ∀ c ∈ (q.char :: rest).head?, decide (c ≠ q.char) = false := by
    rintro _ ⟨⟩
    exact decide_eq_false fun hne => hne rfl
  rw [takeText, dropWhile_append_of_head hbody hhead, takeWhile_append_of_head hbody hhead]

theorem takeOne_quote (q : Quote) (cs : List Char) : takeOne q.char cs = takeText q cs := by
  cases q <;> rfl

theorem takeOne_name {c : Char} {cs rest : List Char} (hc : isNameStart c = true)
    (hcs : ∀ d ∈ cs, isNamePart d = true) (hrest : ∀ d ∈ rest.head?, isNamePart d = false) :
    takeOne c (cs ++ rest) = .ok (.name (c :: cs), rest) := by
  have hsingle : c ≠ '\'' := ne_quote_of_isNameStart hc .single
  have hdouble : c ≠ '"' := ne_quote_of_isNameStart hc .double
  rw [takeOne, isDigit_of_isNameStart hc, if_neg nofun, if_neg hsingle, if_neg hdouble, if_pos hc,
    takeWhile_append_of_head hcs hrest, dropWhile_append_of_head hcs hrest]

theorem takeOne_symbol (s : Symbol) {rest : List Char} (h : EndsBefore (.symbol s) rest) :
    ∃ c cs, s.chars = c :: cs ∧ Text.isBlank c = false ∧
      takeOne c (cs ++ rest) = .ok (.symbol s, rest) := by
  cases s
  case times | bang | less | greater =>
    -- these begin a longer symbol as well, which `rest` does not go on with
    refine ⟨_, [], rfl, by decide, ?_⟩
    cases rest with
    | nil => rfl
    | cons c rest =>
        have hc := of_decide_eq_false (h c rfl)
        simp [takeOne, isNameStart, symbol?, hc]
  all_goals exact ⟨_, _, rfl, by decide, rfl⟩

/-- **The token at the front of a text** is read as far as it is written. -/
theorem takeOne_spelling {t : Token} (ht : t.Valid) {rest : List Char} (h : t.EndsBefore rest) :
    ∃ c cs, t.spelling = c :: cs ∧ Text.isBlank c = false ∧
      takeOne c (cs ++ rest) = .ok (t, rest) := by
  cases t with
  | number whole fraction =>
      obtain ⟨d, ds, rfl, hdigits, hzero⟩ := ht
      rw [List.cons_append, List.forall_mem_cons, List.forall_mem_append] at hdigits
      obtain ⟨hd, hds, hfraction⟩ := hdigits
      refine ⟨d, ds ++ if fraction.isEmpty then [] else '.' :: fraction, rfl,
        isBlank_of_isDigit hd, ?_⟩
      rw [takeOne, if_pos hd, List.append_assoc, takeNumber_append hds hzero
        (isDigit_head?_fraction h) (takeFraction_append hfraction h)]
  | text quote body =>
      refine ⟨quote.char, body ++ [quote.char], rfl, isBlank_quote quote, ?_⟩
      rw [takeOne_quote, List.append_assoc]
      exact takeText_append ht rest
  | name chars =>
      obtain ⟨c, cs, rfl, hc, hcs⟩ := ht
      exact ⟨c, cs, rfl, isBlank_of_isNameStart hc, takeOne_name hc hcs h⟩
  | symbol s => exact takeOne_symbol s h

/-! ### Token after token -/

theorem cut_nil : cut [] = .ok [] := by
  rw [cut.eq_def]

theorem cut_blank {c : Char} (h : Text.isBlank c = true) (cs : List Char) :
    cut (c :: cs) = cut cs := by
  rw [cut.eq_def]
  exact if_pos h

theorem cut_of_takeOne {c : Char} {cs rest : List Char} {t : Token}
    (hc : Text.isBlank c = false) (h : takeOne c cs = .ok (t, rest)) :
    cut (c :: cs) = (cut rest).map (t :: ·) := by
  rw [cut.eq_def]
  dsimp only
  rw [hc, if_neg nofun]
  split
  · next h' => rw [h] at h'; cases h'; rfl
  · next h' => rw [h] at h'; cases h'

/-- **Cutting goes on behind the token at the front.** -/
theorem cut_spelling {t : Token} (ht : t.Valid) {rest : List Char} (h : t.EndsBefore rest) :
    cut (t.spelling ++ rest) = (cut rest).map (t :: ·) := by
  obtain ⟨c, cs, hspelling, hc, htake⟩ := takeOne_spelling ht h
  rw [hspelling, List.cons_append, cut_of_takeOne hc htake]

theorem cut_of_all_isBlank : ∀ {cs : List Char}, cs.all Text.isBlank = true → cut cs = .ok []
  | [], _ => cut_nil
  | c :: cs, h => by
      rw [List.all_cons, Bool.and_eq_true] at h
      rw [cut_blank h.1, cut_of_all_isBlank h.2]

/-- A source with a token in it is not blank. -/
theorem lex_of_cut {cs : List Char} {ts : List Token} (h : cut cs = .ok ts) (hne : ts ≠ []) :
    lex cs = .ok ts := by
  have hblank : ¬ (!cs.isEmpty && cs.all Text.isBlank) = true := by
    intro hblank
    rw [cut_of_all_isBlank (Bool.and_eq_true_iff.mp hblank).2] at h
    exact hne (Except.ok.inj h).symm
  rw [lex, if_neg hblank, h]

/-- A token that stands alone. -/
theorem lex_spelling {t : Token} (ht : t.Valid) : lex t.spelling = .ok [t] := by
  have hend : t.EndsBefore [] := nofun
  have hcut := cut_spelling ht hend
  rw [List.append_nil, cut_nil] at hcut
  exact lex_of_cut hcut (List.cons_ne_nil t [])

end Pipeline.Token
