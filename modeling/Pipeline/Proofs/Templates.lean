import Pipeline.Template

/-!
# Templates — reading a text and writing it back

`Template.read` and `Template.written` are inverse to each other, and a text is refused at the hole
that nothing closes (`Template.read_inverts_written`).

A hole ends at the brace that matches its own: what it holds is balanced (`closing?_eq_some_iff`).
Segments that are well formed are read as they are written, whatever hole comes behind them
(`readFrom_written`); and every text is the writing of such segments, up to its end or to an open
hole (`exists_written`).  The two decide every case of reading.
-/

namespace Pipeline

/-- Where a pair stands in a list: at its head, or behind that. -/
theorem pair_infix_cons {α : Type} {a b x : α} {xs : List α} :
    [a, b] <:+: x :: xs ↔ (x = a ∧ xs.head? = some b) ∨ [a, b] <:+: xs := by
  rw [List.infix_cons_iff]
  refine or_congr_left ?_
  cases xs <;> simp [eq_comm]

theorem except_map_map {ε α β γ : Type} (f : α → β) (g : β → γ) (x : Except ε α) :
    (x.map f).map g = x.map fun a => g (f a) :=
  Functor.map_map f g x

/-! ### Bytes -/

theorem Text.byteLength_eq (cs : List Char) : byteLength cs = (String.ofList cs).utf8ByteSize := by
  have hfold : ∀ n,
      cs.foldl (fun n c => n + c.utf8Size) n = n + (String.ofList cs).utf8ByteSize := by
    induction cs with
    | nil => simp
    | cons c cs ih =>
        intro n
        rw [List.foldl_cons, ih, String.ofList_cons, String.utf8ByteSize_append,
          String.utf8ByteSize_singleton, Nat.add_assoc]
  rw [byteLength, hfold, Nat.zero_add]

theorem Text.byteLength_append (cs ds : List Char) :
    byteLength (cs ++ ds) = byteLength cs + byteLength ds := by
  rw [byteLength_eq, String.ofList_append, String.utf8ByteSize_append, ← byteLength_eq,
    ← byteLength_eq]

theorem Text.byteLength_cons (c : Char) (cs : List Char) :
    byteLength (c :: cs) = c.utf8Size + byteLength cs := by
  rw [← List.singleton_append, byteLength_append]
  exact congrArg (· + _) (Nat.zero_add _)

namespace Template

/-! ### Braces -/

/-- The text closes its own braces and `depth` braces that are open before it, and nowhere more. -/
structure Closes (depth : Nat) (cs : List Char) : Prop where
  within : ∀ before, before <+: cs → before.count '}' ≤ depth + before.count '{'
  whole : cs.count '}' = depth + cs.count '{'

/-- The braces of the text are balanced: no beginning of it closes more of them than it opens, and
the whole text closes all. -/
def Balanced (cs : List Char) : Prop := Closes 0 cs

theorem closes_nil_iff {depth : Nat} : Closes depth [] ↔ depth = 0 := by
  constructor
  · intro h
    exact h.whole.symm
  · rintro rfl
    exact ⟨fun before h => by simp [List.prefix_nil.mp h], rfl⟩

/-- One character moves the depth by its own brace, if it is one. -/
theorem closes_cons_iff {depth depth' : Nat} {c : Char} {cs : List Char}
    (h : depth + [c].count '{' = depth' + [c].count '}') :
    Closes depth (c :: cs) ↔ Closes depth' cs := by
  have hcount : ∀ (brace : Char) (ds : List Char),
      (c :: ds).count brace = [c].count brace + ds.count brace := fun brace ds => by
    rw [← List.count_append, List.singleton_append]
  constructor
  · rintro ⟨hwithin, hwhole⟩
    constructor
    · intro before hbefore
      have hle := hwithin (c :: before) (List.cons_prefix_cons.mpr ⟨rfl, hbefore⟩)
      rw [hcount '}' before, hcount '{' before] at hle
      omega
    · rw [hcount '}' cs, hcount '{' cs] at hwhole
      omega
  · rintro ⟨hwithin, hwhole⟩
    constructor
    · intro before hbefore
      rcases List.prefix_cons_iff.mp hbefore with rfl | ⟨rest, rfl, hrest⟩
      · exact Nat.zero_le _
      · have hle := hwithin rest hrest
        rw [hcount '}' rest, hcount '{' rest]
        omega
    · rw [hcount '}' cs, hcount '{' cs]
      omega

theorem not_closes_close (cs : List Char) : ¬ Closes 0 ('}' :: cs) := fun h =>
  absurd (h.within ['}'] (List.cons_prefix_cons.mpr ⟨rfl, List.nil_prefix⟩)) (by decide)

/-- One character of a hole, which is not the brace that ends it. -/
theorem map_closing?_eq_some_iff {depth depth' : Nat} {c : Char} {cs rest : List Char}
    (h : depth + [c].count '{' = depth' + [c].count '}') (hc : depth = 0 → c ≠ '}')
    (ih : ∀ raw, closing? depth' cs = some (raw, rest) ↔
      cs = raw ++ '}' :: rest ∧ Closes depth' raw) (raw : List Char) :
    (closing? depth' cs).map (fun (raw, rest) => (c :: raw, rest)) = some (raw, rest) ↔
      c :: cs = raw ++ '}' :: rest ∧ Closes depth raw := by
  cases raw with
  | nil =>
      simp only [Option.map_eq_some_iff, Prod.mk.injEq, reduceCtorEq, false_and, and_false,
        exists_false, false_iff, List.nil_append, List.cons.injEq, closes_nil_iff]
      rintro ⟨⟨heq, -⟩, hdepth⟩
      exact hc hdepth heq
  | cons d raw =>
      rw [List.cons_append, List.cons.injEq]
      constructor
      · intro hmap
        obtain ⟨⟨raw', rest'⟩, hclosing, heq⟩ := Option.map_eq_some_iff.mp hmap
        cases heq
        obtain ⟨hcs, hcloses⟩ := (ih raw).mp hclosing
        exact ⟨⟨rfl, hcs⟩, (closes_cons_iff h).mpr hcloses⟩
      · rintro ⟨⟨rfl, hcs⟩, hcloses⟩
        rw [(ih raw).mpr ⟨hcs, (closes_cons_iff h).mp hcloses⟩]
        rfl

/-- **A hole ends at the brace that matches the one it begins with.** -/
theorem closing?_eq_some_iff {depth : Nat} {cs raw rest : List Char} :
    closing? depth cs = some (raw, rest) ↔ cs = raw ++ '}' :: rest ∧ Closes depth raw := by
  fun_induction closing? depth cs generalizing raw with
  | case1 depth => simp
  | case2 depth cs ih =>
      exact map_closing?_eq_some_iff (by simp) (fun _ => by decide) (fun _ => ih) raw
  | case3 cs =>
      cases raw with
      | nil => simp [closes_nil_iff]
      | cons c raw =>
          simp only [Option.some.injEq, Prod.mk.injEq, reduceCtorEq, false_and, false_iff,
            List.cons_append, List.cons.injEq]
          rintro ⟨⟨rfl, -⟩, hcloses⟩
          exact not_closes_close raw hcloses
  | case4 cs depth ih =>
      exact map_closing?_eq_some_iff (by simp) (fun h => by cases h) (fun _ => ih) raw
  | case5 depth c cs hopen hclose ih =>
      have hcount : ∀ {brace}, (c = brace → False) → [c].count brace = 0 := fun hne =>
        List.count_eq_zero.mpr fun hmem => hne (List.mem_singleton.mp hmem).symm
      refine map_closing?_eq_some_iff ?_ (fun _ => hclose) (fun _ => ih) raw
      rw [hcount hopen, hcount hclose]

instance (cs : List Char) : Decidable (Balanced cs) :=
  decidable_of_iff (closing? 0 (cs ++ ['}']) = some (cs, []))
    (closing?_eq_some_iff.trans (and_iff_right rfl))

/-- No brace matches the one that the text stands behind. -/
def Unclosed (cs : List Char) : Prop := ∀ raw rest, cs = raw ++ '}' :: rest → ¬ Balanced raw

theorem closing?_eq_none_iff {cs : List Char} : closing? 0 cs = none ↔ Unclosed cs := by
  rw [Option.eq_none_iff_forall_ne_some]
  constructor
  · intro h raw rest hcs hbalanced
    exact h (raw, rest) (closing?_eq_some_iff.mpr ⟨hcs, hbalanced⟩)
  · rintro h ⟨raw, rest⟩ hsome
    obtain ⟨hcs, hbalanced⟩ := closing?_eq_some_iff.mp hsome
    exact h raw rest hcs hbalanced

instance (cs : List Char) : Decidable (Unclosed cs) :=
  decidable_of_iff (closing? 0 cs = none) closing?_eq_none_iff

/-! ### One step of reading -/

section

variable (offset : Nat) (literal : List Char)

theorem readFrom_nil : readFrom offset literal [] = .ok (flush literal) := by
  rw [readFrom]

theorem readFrom_hole {raw : List Char} (h : Balanced raw) (rest : List Char) :
    readFrom offset literal ((Segment.hole raw).written ++ rest) =
      (readFrom (offset + Text.byteLength (Segment.hole raw).written) [] rest).map
        (flush literal ++ .hole raw :: ·) := by
  have htext : (Segment.hole raw).written ++ rest = '$' :: '{' :: (raw ++ '}' :: rest) := by
    simp [Segment.written]
  have hlength : Text.byteLength (Segment.hole raw).written = Text.byteLength raw + 3 := by
    rw [Segment.written, Text.byteLength_append, Text.byteLength_cons, Text.byteLength_cons]
    change 1 + (1 + Text.byteLength raw) + 1 = _
    omega
  have hclosing : closing? 0 (raw ++ '}' :: rest) = some (raw, rest) :=
    closing?_eq_some_iff.mpr ⟨rfl, h⟩
  rw [htext, hlength, readFrom]
  split
  · next h' => rw [hclosing] at h'; cases h'; rfl
  · next h' => rw [hclosing] at h'; cases h'

theorem readFrom_unclosed {cs : List Char} (h : closing? 0 cs = none) :
    readFrom offset literal ('$' :: '{' :: cs) = .error ⟨offset⟩ := by
  rw [readFrom]
  split
  · next h' => rw [h] at h'; cases h'
  · rfl

theorem readFrom_char {c : Char} {cs : List Char} (h : ¬ (c = '$' ∧ cs.head? = some '{')) :
    readFrom offset literal (c :: cs) = readFrom (offset + c.utf8Size) (literal ++ [c]) cs := by
  rw [readFrom]
  rintro ds rfl rfl
  exact h ⟨rfl, rfl⟩

end

/-! ### Well-formed segments -/

/-- A segment that a text can hold: a literal is not empty and holds no beginning of a hole, and the
braces of a hole are balanced. -/
def Proper : Segment → Prop
  | .literal text => text ≠ [] ∧ ¬ ['$', '{'] <:+: text
  | .hole raw => Balanced raw

/-- Segments that a text can be cut into: all are proper, and no literal follows another. -/
structure WellFormed (segments : List Segment) : Prop where
  proper : ∀ segment ∈ segments, Proper segment
  apart : ∀ text text', ¬ [.literal text, .literal text'] <:+: segments

theorem wellFormed_nil : WellFormed [] := ⟨nofun, by simp⟩

theorem wellFormed_cons_iff {segment : Segment} {segments : List Segment} :
    WellFormed (segment :: segments) ↔
      Proper segment ∧
        (∀ text text', segment = .literal text → segments.head? ≠ some (.literal text')) ∧
        WellFormed segments := by
  constructor
  · rintro ⟨hproper, hapart⟩
    obtain ⟨hsegment, hsegments⟩ := List.forall_mem_cons.mp hproper
    refine ⟨hsegment, ?_, hsegments, ?_⟩
    · exact fun text text' h h' => hapart text text' (pair_infix_cons.mpr (.inl ⟨h, h'⟩))
    · exact fun text text' h => hapart text text' (pair_infix_cons.mpr (.inr h))
  · rintro ⟨hsegment, hhead, hsegments, hapart⟩
    refine ⟨List.forall_mem_cons.mpr ⟨hsegment, hsegments⟩, fun text text' h => ?_⟩
    rcases pair_infix_cons.mp h with ⟨heq, hnext⟩ | hlater
    · exact hhead text text' heq hnext
    · exact hapart text text' hlater

/-- The text is at its end, or a hole begins. -/
def Pauses (cs : List Char) : Prop := cs = [] ∨ ∃ rest, cs = '$' :: '{' :: rest

theorem Pauses.head?_ne {cs : List Char} (h : Pauses cs) : cs.head? ≠ some '{' := by
  rcases h with rfl | ⟨rest, rfl⟩ <;> simp

theorem pauses_append_written {segments : List Segment} {tail : List Char} (htail : Pauses tail)
    (h : ∀ text, segments.head? ≠ some (.literal text)) :
    Pauses (segments.flatMap Segment.written ++ tail) := by
  cases segments with
  | nil => exact htail
  | cons segment segments =>
      cases segment with
      | literal text => exact absurd rfl (h text)
      | hole raw => exact .inr ⟨_, rfl⟩

/-! ### Reading segments that are written -/

theorem readFrom_append_literal {text rest : List Char} (hplain : ¬ ['$', '{'] <:+: text)
    (hrest : rest.head? ≠ some '{') (offset : Nat) (literal : List Char) :
    readFrom offset literal (text ++ rest) =
      readFrom (offset + Text.byteLength text) (literal ++ text) rest := by
  induction text generalizing offset literal with
  | nil => simp [Text.byteLength]
  | cons c text ih =>
      have hchar : ¬ (c = '$' ∧ (text ++ rest).head? = some '{') := by
        rintro ⟨rfl, hhead⟩
        cases text with
        | nil => exact hrest hhead
        | cons d text => exact hplain (pair_infix_cons.mpr (.inl ⟨rfl, hhead⟩))
      have hlater : ¬ ['$', '{'] <:+: text := fun h => hplain (pair_infix_cons.mpr (.inr h))
      rw [List.cons_append, readFrom_char offset literal hchar, ih hlater, Text.byteLength_cons,
        ← Nat.add_assoc, List.append_assoc, List.singleton_append]

/-- Where a hole begins or the text ends, the literal read so far becomes a segment. -/
theorem readFrom_of_pauses {tail : List Char} (h : Pauses tail) (offset : Nat)
    (literal : List Char) :
    readFrom offset literal tail = (readFrom offset [] tail).map (flush literal ++ ·) := by
  rcases h with rfl | ⟨rest, rfl⟩
  · rw [readFrom_nil, readFrom_nil]
    simp [flush, Except.map]
  · cases hclosing : closing? 0 rest with
    | none =>
        rw [readFrom_unclosed _ _ hclosing, readFrom_unclosed _ _ hclosing]
        rfl
    | some p =>
        obtain ⟨hrest, hbalanced⟩ := closing?_eq_some_iff.mp hclosing
        have hwritten : '$' :: '{' :: rest = (Segment.hole p.1).written ++ p.2 := by
          simp [Segment.written, hrest]
        rw [hwritten, readFrom_hole _ _ hbalanced, readFrom_hole _ _ hbalanced, except_map_map]
        rfl

/-- **Segments are read as they are written**, up to the end of the text or the next hole. -/
theorem readFrom_written {segments : List Segment} (h : WellFormed segments) {tail : List Char}
    (htail : Pauses tail) (offset : Nat) :
    readFrom offset [] (segments.flatMap Segment.written ++ tail) =
      (readFrom (offset + Text.byteLength (segments.flatMap Segment.written)) [] tail).map
        (segments ++ ·) := by
  induction segments generalizing offset with
  | nil => exact (congrFun Except.map_id _).symm
  | cons segment segments ih =>
      obtain ⟨hproper, hnext, hlater⟩ := wellFormed_cons_iff.mp h
      rw [List.flatMap_cons, List.append_assoc, Text.byteLength_append, ← Nat.add_assoc]
      cases segment with
      | literal text =>
          obtain ⟨hne, hplain⟩ := hproper
          have hpauses := pauses_append_written htail fun text' => hnext text text' rfl
          have hflush : flush text = [.literal text] := if_neg (mt List.isEmpty_iff.mp hne)
          rw [Segment.written, readFrom_append_literal hplain hpauses.head?_ne,
            readFrom_of_pauses hpauses, ih hlater, except_map_map, List.nil_append, hflush]
          rfl
      | hole raw =>
          rw [readFrom_hole _ _ hproper, ih hlater, except_map_map]
          rfl

/-! ### Cutting a text -/

/-- A character that begins no hole belongs to the literal behind it. -/
theorem exists_wellFormed_cons {c : Char} {segments : List Segment} (h : WellFormed segments)
    (hc : ¬ (c = '$' ∧ (segments.flatMap Segment.written).head? = some '{')) :
    ∃ segments', WellFormed segments' ∧
      segments'.flatMap Segment.written = c :: segments.flatMap Segment.written := by
  by_cases hhead : ∃ text, segments.head? = some (.literal text)
  · obtain ⟨text, hhead⟩ := hhead
    obtain ⟨rest, rfl⟩ := List.head?_eq_some_iff.mp hhead
    obtain ⟨⟨hne, hplain⟩, hnext, hlater⟩ := wellFormed_cons_iff.mp h
    refine ⟨.literal (c :: text) :: rest, wellFormed_cons_iff.mpr ⟨⟨by simp, ?_⟩, ?_, hlater⟩, rfl⟩
    · intro hpair
      rcases pair_infix_cons.mp hpair with ⟨rfl, hbrace⟩ | hinside
      · refine hc ⟨rfl, ?_⟩
        rw [List.flatMap_cons, List.head?_append, Segment.written, hbrace]
        rfl
      · exact hplain hinside
    · exact fun _ text' _ => hnext text text' rfl
  · refine ⟨.literal [c] :: segments, wellFormed_cons_iff.mpr ⟨⟨by simp, ?_⟩, ?_, h⟩, rfl⟩
    · intro hpair
      exact absurd hpair.length_le (by simp)
    · exact fun _ text' _ hsome => hhead ⟨text', hsome⟩

/-- The text is at its end, or a hole begins that nothing closes. -/
def Stops (cs : List Char) : Prop := cs = [] ∨ ∃ rest, cs = '$' :: '{' :: rest ∧ Unclosed rest

/-- **Every text is the writing of segments**, up to where it stops. -/
theorem exists_written (cs : List Char) :
    ∃ segments tail, WellFormed segments ∧ cs = segments.flatMap Segment.written ++ tail ∧
      Stops tail := by
  fun_induction readFrom 0 [] cs with
  | case1 => exact ⟨[], [], wellFormed_nil, rfl, .inl rfl⟩
  | case2 offset literal cs raw rest hclosing ih =>
      obtain ⟨hcs, hbalanced⟩ := closing?_eq_some_iff.mp hclosing
      obtain ⟨segments, tail, hwell, hrest, htail⟩ := ih
      refine ⟨.hole raw :: segments, tail, ?_, ?_, htail⟩
      · exact wellFormed_cons_iff.mpr ⟨hbalanced, nofun, hwell⟩
      · simp [Segment.written, hcs, hrest]
  | case3 offset literal cs hclosing =>
      exact ⟨[], _, wellFormed_nil, rfl, .inr ⟨cs, rfl, closing?_eq_none_iff.mp hclosing⟩⟩
  | case4 offset literal c cs hc ih =>
      obtain ⟨segments, tail, hwell, hcs, htail⟩ := ih
      have hplain : ¬ (c = '$' ∧ (segments.flatMap Segment.written).head? = some '{') := by
        rintro ⟨hdollar, hbrace⟩
        obtain ⟨rest, hrest⟩ := List.head?_eq_some_iff.mp hbrace
        exact hc (rest ++ tail) hdollar (by rw [hcs, hrest, List.cons_append])
      obtain ⟨segments', hwell', hwritten⟩ := exists_wellFormed_cons hwell hplain
      exact ⟨segments', tail, hwell', by rw [hwritten, hcs, List.cons_append], htail⟩

/-! ### Whole texts -/

theorem read_written {t : Template} (h : WellFormed t.segments) :
    read (String.ofList t.written) = .ok t := by
  have hread := readFrom_written h (.inl rfl) 0
  rw [List.append_nil, readFrom_nil] at hread
  rw [read, String.toList_ofList, written, hread]
  simp [Except.map, flush]

theorem read_unclosed {t : Template} (h : WellFormed t.segments) {rest : List Char}
    (hrest : Unclosed rest) :
    read (String.ofList (t.written ++ '$' :: '{' :: rest)) =
      .error ⟨(String.ofList t.written).utf8ByteSize⟩ := by
  rw [read, String.toList_ofList, written, readFrom_written h (.inr ⟨rest, rfl⟩),
    readFrom_unclosed _ _ (closing?_eq_none_iff.mpr hrest), Nat.zero_add, Text.byteLength_eq]
  rfl

/-- A text is a template as it is written, or it stops at a hole that nothing closes. -/
theorem eq_written_or_unclosed (text : String) :
    ∃ t : Template, WellFormed t.segments ∧ (text = String.ofList t.written ∨
      ∃ rest, Unclosed rest ∧ text = String.ofList (t.written ++ '$' :: '{' :: rest)) := by
  obtain ⟨segments, tail, hwell, htext, rfl | ⟨rest, rfl, hrest⟩⟩ := exists_written text.toList
  · rw [List.append_nil] at htext
    exact ⟨⟨segments⟩, hwell, .inl (by rw [written, ← htext, String.ofList_toList])⟩
  · exact ⟨⟨segments⟩, hwell, .inr ⟨rest, hrest, by rw [written, ← htext, String.ofList_toList]⟩⟩

theorem read_eq_ok_iff {text : String} {t : Template} :
    read text = .ok t ↔ WellFormed t.segments ∧ text = String.ofList t.written := by
  constructor
  · intro hread
    obtain ⟨t', hwell, rfl | ⟨rest, hrest, rfl⟩⟩ := eq_written_or_unclosed text
    · rw [read_written hwell] at hread
      cases hread
      exact ⟨hwell, rfl⟩
    · rw [read_unclosed hwell hrest] at hread
      cases hread
  · rintro ⟨hwell, rfl⟩
    exact read_written hwell

theorem read_eq_error_iff {text : String} {offset : Nat} :
    read text = .error ⟨offset⟩ ↔
      ∃ (t : Template) (rest : List Char), WellFormed t.segments ∧ Unclosed rest ∧
        text = String.ofList (t.written ++ '$' :: '{' :: rest) ∧
        offset = (String.ofList t.written).utf8ByteSize := by
  constructor
  · intro hread
    obtain ⟨t, hwell, rfl | ⟨rest, hrest, rfl⟩⟩ := eq_written_or_unclosed text
    · rw [read_written hwell] at hread
      cases hread
    · rw [read_unclosed hwell hrest] at hread
      cases hread
      exact ⟨t, rest, hwell, hrest, rfl, rfl⟩
  · rintro ⟨t, rest, hwell, hrest, rfl, rfl⟩
    exact read_unclosed hwell hrest

/-- **Reading is the inverse of writing**: a text reads as a template exactly when the template is
well formed and the text is its writing; a text is refused exactly when behind the writing of a
well-formed template stands a hole that nothing closes, and the error counts the bytes in front of
that hole; and the expression of a hole is what it holds between blanks, all of it when it has none
at its ends. -/
theorem read_inverts_written (text : String) :
    (∀ t : Template, read text = .ok t ↔
      WellFormed t.segments ∧ text = String.ofList t.written) ∧
    (∀ offset, read text = .error ⟨offset⟩ ↔
      ∃ (t : Template) (rest : List Char), WellFormed t.segments ∧ Unclosed rest ∧
        text = String.ofList (t.written ++ '$' :: '{' :: rest) ∧
        offset = (String.ofList t.written).utf8ByteSize) ∧
    ∀ raw,
      (∃ before after, Text.Blank before ∧ Text.Blank after ∧
        raw = before ++ (Segment.source raw).toList ++ after) ∧
      Text.Trimmed (Segment.source raw).toList ∧
      (Text.Trimmed raw → Segment.source raw = String.ofList raw) := by
  refine ⟨fun t => read_eq_ok_iff, fun offset => read_eq_error_iff, fun raw => ?_⟩
  rw [Segment.source, String.toList_ofList]
  refine ⟨Text.eq_append_trimBlanks raw, Text.trimmed_trimBlanks raw, fun h => ?_⟩
  rw [h.trimBlanks_eq]

/-- A dollar sign in front of a hole, braces in a hole and outside, and two bytes before a hole that
nothing closes. -/
theorem read_inverts_written_braces :
    read "$$\x7b \x7bx\x7d \x7d\x7d" =
      .ok ⟨[.literal ['$'], .hole [' ', '{', 'x', '}', ' '], .literal ['}']]⟩ ∧
    read "é$\x7b\x7b\x7d" = .error ⟨2⟩ := by
  constructor
  · refine ((read_inverts_written _).1 _).mpr ⟨?_, rfl⟩
    have hbalanced : Balanced [' ', '{', 'x', '}', ' '] := by decide
    simp [wellFormed_cons_iff, wellFormed_nil, Proper, pair_infix_cons, hbalanced]
  · refine ((read_inverts_written _).2.1 2).mpr ⟨⟨[.literal ['é']]⟩, ['{', '}'], ?_, ?_, rfl, rfl⟩
    · simp [wellFormed_cons_iff, wellFormed_nil, Proper, pair_infix_cons]
    · decide

end Template

end Pipeline
