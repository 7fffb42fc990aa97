import Pipeline.Proofs.Accounts
import Pipeline.Proofs.Lossless
import Pipeline.Proofs.Templates

/-!
# Holes — expressions inside templates

A template ends a hole by counting braces; an expression knows strings, and a brace in a string
closes nothing.  So an expression fits in a hole exactly when its braces are balanced, those in its
strings included (`Template.compiled_fits_iff`).

Outside strings braces come in pairs (`Grammar.Derives.fits`): an expression can fail to fit only by
a string whose braces are not balanced, and there is one that does (`Template.brace_in_string`).
What fits is rendered as its own value, since the blanks that a hole trims change none of its tokens
(`Expr.ofSource_trim`).
-/

namespace Pipeline

namespace Template

/-! ### Balanced texts -/

theorem Closes.append {m n : Nat} {xs ys : List Char} (hx : Closes m xs) (hy : Closes n ys) :
    Closes (m + n) (xs ++ ys) := by
  constructor
  · rintro before ⟨after, heq⟩
    -- the beginning ends within the first text, or it ends within the second
    rcases List.append_eq_append_iff.mp heq with ⟨middle, rfl, -⟩ | ⟨middle, rfl, hmiddle⟩
    · have hle := hx.within before (List.prefix_append before middle)
      omega
    · have hle := hy.within middle ⟨after, hmiddle.symm⟩
      have hwhole := hx.whole
      rw [List.count_append, List.count_append]
      omega
  · have hwhole := hx.whole
    have hwhole' := hy.whole
    rw [List.count_append, List.count_append]
    omega

theorem Balanced.append {xs ys : List Char} (hx : Balanced xs) (hy : Balanced ys) :
    Balanced (xs ++ ys) :=
  Closes.append hx hy

theorem Balanced.braced {cs : List Char} (h : Balanced cs) : Balanced ('{' :: (cs ++ ['}'])) := by
  have hclose : Closes 1 ['}'] := (closes_cons_iff rfl).mpr (closes_nil_iff.mpr rfl)
  exact (closes_cons_iff rfl).mpr (Closes.append h hclose)

/-- The character is a brace. -/
def isBrace (c : Char) : Bool := c = '{' || c = '}'

/-- Only braces count. -/
theorem balanced_filter_iff {cs : List Char} : Balanced (cs.filter isBrace) ↔ Balanced cs := by
  have hopen : ∀ ds : List Char, (ds.filter isBrace).count '{' = ds.count '{' := fun ds =>
    List.count_filter rfl
  have hclose : ∀ ds : List Char, (ds.filter isBrace).count '}' = ds.count '}' := fun ds =>
    List.count_filter rfl
  constructor
  · rintro ⟨hwithin, hwhole⟩
    rw [hopen, hclose] at hwhole
    refine ⟨fun before hbefore => ?_, hwhole⟩
    have hle := hwithin (before.filter isBrace) (hbefore.filter isBrace)
    rwa [hopen, hclose] at hle
  · rintro ⟨hwithin, hwhole⟩
    constructor
    · intro before hbefore
      obtain ⟨whole, hprefix, rfl⟩ := List.prefix_filter_iff.mp hbefore
      rw [hopen, hclose]
      exact hwithin whole hprefix
    · rwa [hopen, hclose]

theorem balanced_of_plain {cs : List Char} (h : ∀ c ∈ cs, isBrace c = false) : Balanced cs := by
  rw [← balanced_filter_iff, List.filter_eq_nil_iff.mpr fun c hc => by simp [h c hc]]
  exact closes_nil_iff.mpr rfl

/-- A class of characters that leaves out the two braces holds none. -/
theorem isBrace_eq_false {p : Char → Bool} {c : Char} (hc : p c = true) (hopen : p '{' = false)
    (hclose : p '}' = false) : isBrace c = false := by
  by_contra hbrace
  simp only [isBrace, Bool.not_eq_false, Bool.or_eq_true, decide_eq_true_eq] at hbrace
  rcases hbrace with rfl | rfl
  · rw [hopen] at hc; cases hc
  · rw [hclose] at hc; cases hc

end Template

open Template

/-! ### Braces of tokens -/

namespace Token

/-- The braces in the token are balanced if it is a string. -/
def Tidy : Token → Prop
  | .text _ body => Balanced body
  | _ => True

/-- The braces of the tokens are balanced if those in each string are. -/
def Fits (ts : List Token) : Prop :=
  (∀ t ∈ ts, t.Valid ∧ t.Tidy) → Balanced (ts.flatMap spelling)

theorem fits_nil : Fits [] := fun _ => closes_nil_iff.mpr rfl

theorem Fits.append {ts us : List Token} (ht : Fits ts) (hu : Fits us) : Fits (ts ++ us) := by
  intro h
  obtain ⟨hts, hus⟩ := List.forall_mem_append.mp h
  rw [List.flatMap_append]
  exact (ht hts).append (hu hus)

theorem Fits.cons {t : Token} {ts : List Token} (ht : Fits [t]) (hts : Fits ts) : Fits (t :: ts) :=
  ht.append hts

theorem Fits.braced {ts : List Token} (h : Fits ts) :
    Fits (.symbol .openBrace :: (ts ++ [.symbol .closeBrace])) := by
  intro hall
  have hts : ∀ t ∈ ts, t.Valid ∧ t.Tidy := fun t ht =>
    hall t (List.mem_cons_of_mem _ (List.mem_append_left _ ht))
  rw [List.flatMap_cons, List.flatMap_append]
  exact (h hts).braced

theorem balanced_number {whole fraction : List Char} (h : (Token.number whole fraction).Valid) :
    Balanced (Token.number whole fraction).spelling := by
  obtain ⟨-, -, -, hdigits, -⟩ := h
  refine balanced_of_plain fun c hc => ?_
  have hclass : c.isDigit = true ∨ c = '.' := by
    rw [List.forall_mem_append] at hdigits
    rcases List.mem_append.mp hc with hwhole | hfraction
    · exact .inl (hdigits.1 c hwhole)
    · split at hfraction
      · cases hfraction
      · rcases List.mem_cons.mp hfraction with hdot | hdigit
        · exact .inr hdot
        · exact .inl (hdigits.2 c hdigit)
  rcases hclass with hdigit | rfl
  · exact isBrace_eq_false hdigit (by decide) (by decide)
  · rfl

theorem balanced_name {chars : List Char} (h : (Token.name chars).Valid) : Balanced chars := by
  obtain ⟨c, cs, rfl, hstart, hparts⟩ := h
  refine balanced_of_plain (List.forall_mem_cons.mpr ⟨?_, fun d hd => ?_⟩)
  · exact isBrace_eq_false hstart (by decide) (by decide)
  · exact isBrace_eq_false (hparts d hd) (by decide) (by decide)

theorem balanced_text {body : List Char} (quote : Quote) (h : Balanced body) :
    Balanced (Token.text quote body).spelling := by
  have hquote : Balanced [quote.char] := by cases quote <;> decide
  exact (hquote.append h).append hquote

/-- A token that is not a brace itself. -/
theorem fits_token {t : Token} (hopen : t ≠ .symbol .openBrace) (hclose : t ≠ .symbol .closeBrace) :
    Fits [t] := by
  intro h
  obtain ⟨hvalid, htidy⟩ := h t (List.mem_singleton_self t)
  rw [List.flatMap_singleton]
  cases t with
  | number whole fraction => exact balanced_number hvalid
  | text quote body => exact balanced_text quote htidy
  | name chars => exact balanced_name hvalid
  | symbol s =>
      cases s
      case openBrace => exact absurd rfl hopen
      case closeBrace => exact absurd rfl hclose
      all_goals decide

end Token

/-! ### Braces of expressions -/

namespace Grammar

open Token (Fits fits_nil fits_token)

/-- A symbol that a table knows, where the table knows no brace. -/
theorem fits_symbol {α : Type} {table : Symbol → Option α} (hopen : table .openBrace = none)
    (hclose : table .closeBrace = none) {s : Symbol} {a : α} (h : table s = some a) :
    Fits [.symbol s] := by
  refine fits_token ?_ ?_
  · rintro ⟨⟩
    rw [hopen] at h
    cases h
  · rintro ⟨⟩
    rw [hclose] at h
    cases h

theorem Separated.fits {parts : List (List Token)} {inner : List Token} (h : Separated parts inner)
    (hparts : ∀ part ∈ parts, Fits part) : Fits inner := by
  induction h with
  | nothing => exact fits_nil
  | last part => exact hparts part (List.mem_singleton_self part)
  | comma part _ ih =>
      obtain ⟨hpart, hlater⟩ := List.forall_mem_cons.mp hparts
      exact hpart.append (.cons (fits_token nofun nofun) (ih hlater))

theorem Field.fits_written {f : Field} (h : Fits f.tokens) : Fits f.written := by
  have hkey : Fits [f.key] := by
    have hname := f.isKey
    refine fits_token ?_ ?_ <;>
      · intro hbrace
        rw [hbrace] at hname
        cases hname
  exact hkey.cons (.cons (fits_token nofun nofun) h)

/-- **Outside strings, the braces of an expression are balanced.** -/
theorem Derives.fits {c : Category} {ts : List Token} {e : Expr} (h : Derives c ts e) :
    Fits ts := by
  induction h with
  | lift _ _ ih => exact ih
  | left hd hs _ _ ihl ihr =>
      obtain ⟨op, hop, -⟩ := Operator.of_mem_operators hd hs
      exact ihl.append ((fits_symbol rfl rfl hop).cons ihr)
  | power _ _ ihl ihr => exact ihl.append (.cons (fits_token nofun nofun) ihr)
  | sign hs _ ih =>
      obtain ⟨sign, hsign, -⟩ := Sign.of_mem_signs hs
      exact (fits_symbol rfl rfl hsign).cons ih
  | number | text | literal | name => exact fits_token nofun nofun
  | list _ hs ihm =>
      have hinner := hs.fits (List.forall_mem_map.mpr ihm)
      exact .cons (fits_token nofun nofun) (hinner.append (fits_token nofun nofun))
  | object _ hs ihf =>
      exact (hs.fits (List.forall_mem_map.mpr fun f hf => Field.fits_written (ihf f hf))).braced
  | paren _ ih => exact .cons (fits_token nofun nofun) (ih.append (fits_token nofun nofun))
  | member chars _ ih =>
      exact ih.append (.cons (fits_token nofun nofun) (fits_token nofun nofun))
  | call chars _ _ hs ih iha =>
      have hinner := hs.fits (List.forall_mem_map.mpr iha)
      refine ih.append (.cons (fits_token nofun nofun) (.cons (fits_token nofun nofun) ?_))
      exact .cons (fits_token nofun nofun) (hinner.append (fits_token nofun nofun))
  | index _ _ ih ihi =>
      exact ih.append (.cons (fits_token nofun nofun) (ihi.append (fits_token nofun nofun)))

end Grammar

/-! ### Sources -/

theorem filter_isBrace_of_blank {cs : List Char} (h : Text.Blank cs) : cs.filter isBrace = [] :=
  List.filter_eq_nil_iff.mpr fun c hc => by simp [isBrace_eq_false (h c hc) rfl rfl]

theorem Token.filter_isBrace_spread {lead : List Char} {parts : List (Token × List Char)}
    (hlead : Text.Blank lead) (hparts : ∀ part ∈ parts, Text.Blank part.2) :
    (spread lead parts).filter isBrace =
      ((parts.map (·.1)).flatMap spelling).filter isBrace := by
  induction parts generalizing lead with
  | nil => simpa [spread] using filter_isBrace_of_blank hlead
  | cons part parts ih =>
      obtain ⟨hpart, hlater⟩ := List.forall_mem_cons.mp hparts
      rw [spread_cons, List.filter_append, List.filter_append, filter_isBrace_of_blank hlead,
        ih hpart hlater, List.map_cons, List.flatMap_cons, List.filter_append, List.nil_append]

/-- The braces of a source are balanced if those in each of its strings are. -/
theorem balanced_of_parse {source : List Char} {ts : List Token} {e : Expr}
    (hlex : Token.lex source = .ok ts) (hparse : Parser.parse ts = .ok e)
    (htidy : ∀ t ∈ ts, t.Tidy) : Balanced source := by
  obtain ⟨lead, parts, hlead, hparts, rfl, rfl⟩ := Token.eq_spread_of_cut (Token.cut_of_lex hlex)
  rw [← balanced_filter_iff, Token.filter_isBrace_spread hlead fun part hp => (hparts part hp).2,
    balanced_filter_iff]
  refine (Parser.derives_of_parse hparse).fits fun t ht => ⟨?_, htidy t ht⟩
  obtain ⟨part, hpart, rfl⟩ := List.mem_map.mp ht
  exact (hparts part hpart).1

namespace Expr

theorem ofSource_eq_ok_iff {source : String} {e : Expr} :
    ofSource source = .ok e ↔
      ∃ ts, ts ≠ [] ∧ Token.lex source.toList = .ok ts ∧ Parser.parse ts = .ok e := by
  unfold ofSource
  constructor
  · intro h
    split at h
    · cases h
    · cases h
    · next ts hne hlex =>
        cases hparse : Parser.parse ts with
        | error found => rw [hparse] at h; cases h
        | ok e' =>
            rw [hparse] at h
            cases h
            exact ⟨ts, hne, hlex, hparse⟩
  · rintro ⟨ts, hne, hlex, hparse⟩
    rw [hlex]
    cases ts with
    | nil => exact absurd rfl hne
    | cons t ts => simp [hparse, Except.mapError]

/-- Blanks at the ends of a source are no part of its expression. -/
theorem ofSource_trim {source : String} {e : Expr} (h : ofSource source = .ok e) :
    ofSource (Text.trim source) = .ok e := by
  obtain ⟨ts, hne, hlex, hparse⟩ := ofSource_eq_ok_iff.mp h
  refine ofSource_eq_ok_iff.mpr ⟨ts, hne, ?_, hparse⟩
  rw [Text.trim, String.toList_ofList]
  exact Token.lex_trimBlanks hlex hne

end Expr

theorem Evaluator.exists_ofSource_of_compile {source : String}
    (h : Evaluator.standard.compile source = .ok ()) : ∃ e, Expr.ofSource source = .ok e := by
  simp only [standard] at h
  split at h
  · next e he => exact ⟨e, he⟩
  · cases h

theorem evalSource_trim {source : String} (h : Evaluator.standard.compile source = .ok ())
    (b : Bindings) (env : Environment) :
    evalSource (Text.trim source) b env = evalSource source b env := by
  obtain ⟨e, he⟩ := Evaluator.exists_ofSource_of_compile h
  rw [evalSource, evalSource, he, Expr.ofSource_trim he]

/-! ### Expressions in holes -/

namespace Template

/-- A text that is one hole, with the source in it. -/
def enclosed (source : String) : String := "$\x7b" ++ source ++ "\x7d"

theorem enclosed_eq (source : String) :
    enclosed source = String.ofList (written ⟨[.hole source.toList]⟩) := by
  apply String.toList_inj.mp
  simp [enclosed, written, Segment.written]

theorem read_enclosed_iff {source : String} {raw : List Char} :
    read (enclosed source) = .ok ⟨[.hole raw]⟩ ↔ raw = source.toList ∧ Balanced raw := by
  rw [read_eq_ok_iff, wellFormed_cons_iff, enclosed_eq, String.ofList_inj]
  constructor
  · rintro ⟨⟨hbalanced, -⟩, hwritten⟩
    refine ⟨?_, hbalanced⟩
    simpa [written, Segment.written, eq_comm] using hwritten
  · rintro ⟨rfl, hbalanced⟩
    exact ⟨⟨hbalanced, fun _ _ h => Segment.noConfusion h, wellFormed_nil⟩, rfl⟩

theorem render_hole (raw : List Char) (b : Bindings) (env : Environment) :
    render ⟨[.hole raw]⟩ b env =
      match evalSource (Segment.source raw) b env with
      | .ok (.value v) => .ok v.display
      | .ok (.failure e) => .error e.message
      | .error cause => .error cause.message := by
  simp only [render, List.mapM_cons, List.mapM_nil, renderSegment, Evaluator.standard]
  rcases evalSource (Segment.source raw) b env with cause | ⟨v⟩ | ⟨e⟩
  · rfl
  · simp [Except.mapError]
  · rfl

/-- **An expression fits in a hole exactly when its braces are balanced**, those in its strings
included: then the text is one hole with the trimmed source, and it is rendered as the value of the
source, or fails as that does.  Its braces are balanced if those in each of its strings are. -/
theorem compiled_fits_iff (source : String) (h : Evaluator.standard.compile source = .ok ()) :
    ((∃ raw, read (enclosed source) = .ok ⟨[.hole raw]⟩ ∧
      Segment.source raw = Text.trim source) ↔ Balanced source.toList) ∧
    (Balanced source.toList → ∃ t, read (enclosed source) = .ok t ∧ ∀ b env,
      t.render b env =
        match evalSource source b env with
        | .ok (.value v) => .ok v.display
        | .ok (.failure e) => .error e.message
        | .error cause => .error cause.message) ∧
    ∃ ts, Token.lex source.toList = .ok ts ∧ ((∀ t ∈ ts, t.Tidy) → Balanced source.toList) := by
  refine ⟨⟨?_, ?_⟩, ?_, ?_⟩
  · rintro ⟨raw, hread, -⟩
    obtain ⟨rfl, hbalanced⟩ := read_enclosed_iff.mp hread
    exact hbalanced
  · intro hbalanced
    exact ⟨source.toList, read_enclosed_iff.mpr ⟨rfl, hbalanced⟩, rfl⟩
  · intro hbalanced
    refine ⟨⟨[.hole source.toList]⟩, read_enclosed_iff.mpr ⟨rfl, hbalanced⟩, fun b env => ?_⟩
    have hsource : Segment.source source.toList = Text.trim source := rfl
    rw [render_hole, hsource, evalSource_trim h]
  · obtain ⟨e, he⟩ := Evaluator.exists_ofSource_of_compile h
    obtain ⟨ts, -, hlex, hparse⟩ := Expr.ofSource_eq_ok_iff.mp he
    exact ⟨ts, hlex, balanced_of_parse hlex hparse⟩

/-- A field of an object, with braces in its string. -/
def nested : String := " \x7b a : '\x7b\x7d' \x7d . a"

/-- Its tokens, with the blanks behind them. -/
def nestedParts : List (Token × List Char) :=
  [(.symbol .openBrace, [' ']), (.name ['a'], [' ']), (.symbol .colon, [' ']),
    (.text .single ['{', '}'], [' ']), (.symbol .closeBrace, [' ']), (.symbol .dot, [' ']),
    (.name ['a'], [])]

theorem lex_nested : Token.lex nested.toList = .ok (nestedParts.map (·.1)) := by
  have hsource : nested.toList = Token.spread [' '] nestedParts := rfl
  have hname : (Token.name ['a']).Valid := ⟨'a', [], rfl, by decide, List.forall_mem_nil _⟩
  have htext : (Token.text .single ['{', '}']).Valid := by simp [Token.Valid, Quote.char]
  have hvalid : ∀ part ∈ nestedParts, part.1.Valid := by
    simp only [nestedParts, List.forall_mem_cons]
    exact ⟨trivial, hname, trivial, htext, trivial, trivial, hname, List.forall_mem_nil _⟩
  have hblank : ∀ part ∈ nestedParts, Text.Blank part.2 := by decide
  rw [hsource]
  refine Token.lex_of_cut (Token.cut_spread (by decide) ?_ (by decide)) (by decide)
  exact fun part hpart => ⟨hvalid part hpart, hblank part hpart⟩

theorem ofSource_nested :
    Expr.ofSource nested = .ok (.member (.object [("a", .literal (.text "\x7b\x7d"))]) "a") :=
  Expr.ofSource_eq_ok_iff.mpr ⟨_, by decide, lex_nested, rfl⟩

theorem compiled_fits_iff_nested :
    Evaluator.standard.compile nested = .ok () ∧
      ∃ t, read (enclosed nested) = .ok t ∧ ∀ b env, t.render b env = .ok "\x7b\x7d" := by
  have hcompile : Evaluator.standard.compile nested = .ok () := by
    simp only [Evaluator.standard, ofSource_nested]
  refine ⟨hcompile, ?_⟩
  obtain ⟨-, hrender, -⟩ := compiled_fits_iff nested hcompile
  obtain ⟨t, hread, hvalue⟩ := hrender (by decide)
  refine ⟨t, hread, fun b env => ?_⟩
  rw [hvalue, evalSource, ofSource_nested]
  rfl

/-- A string of one closing brace is an expression, but its hole ends inside the string. -/
theorem brace_in_string :
    Evaluator.standard.compile "'\x7d'" = .ok () ∧
      read (enclosed "'\x7d'") = .ok ⟨[.hole ['\''], .literal ['\'', '}']]⟩ ∧
      ¬ ∃ raw, read (enclosed "'\x7d'") = .ok ⟨[.hole raw]⟩ := by
  have hread : read (enclosed "'\x7d'") = .ok ⟨[.hole ['\''], .literal ['\'', '}']]⟩ := by
    refine read_eq_ok_iff.mpr ⟨?_, rfl⟩
    have hbalanced : Balanced ['\''] := by decide
    simp [wellFormed_cons_iff, wellFormed_nil, Proper, pair_infix_cons, hbalanced]
  refine ⟨?_, hread, ?_⟩
  · have hlex : Token.lex "'\x7d'".toList = .ok [.text .single ['}']] :=
      Token.lex_spelling (t := .text .single ['}']) (by simp [Token.Valid, Quote.char])
    have he : Expr.ofSource "'\x7d'" = .ok (.literal (.text "\x7d")) :=
      Expr.ofSource_eq_ok_iff.mpr ⟨_, by simp, hlex, rfl⟩
    simp only [Evaluator.standard, he]
  · rintro ⟨raw, hraw⟩
    rw [hread] at hraw
    cases hraw

end Template

end Pipeline
