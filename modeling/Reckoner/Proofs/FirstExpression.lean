/-
# The first expression of a byte sequence

The search reports the groups of a pattern; an occurrence cuts the whole byte sequence.  This
file joins the two: what the search finds is the first occurrence
(`Occurrence.FirstIn`), there is at most one of these, and there is one as soon as there is any
occurrence.  The reason is that digits, blanks and operators are three disjoint classes of
bytes, so that the parts of an expression are known from where it begins, up to the end of its
right operand.

The main result is `Operation.parse_leftmost`: a byte sequence is read as its first occurrence
says, or refused if it has none.
-/
import Reckoner.Evaluation
import Reckoner.Proofs.Numerals
import Reckoner.Proofs.PatternSearch

namespace Reckoner

/-! ## Three classes of bytes -/

lemma not_isDigit_of_isBlank {b : UInt8} (h : Bytes.isBlank b = true) :
    Decimal.isDigit b = false := by
  simp only [Bytes.isBlank, Bool.or_eq_true, beq_iff_eq] at h
  rcases h with (((rfl | rfl) | rfl) | rfl) | rfl <;> rfl

lemma not_isBlank_of_isDigit {b : UInt8} (h : Decimal.isDigit b = true) :
    Bytes.isBlank b = false := by
  by_contra hb
  rw [Bool.not_eq_false] at hb
  rw [not_isDigit_of_isBlank hb] at h
  cases h

lemma Operator.not_isDigit_byte (op : Operator) : Decimal.isDigit op.byte = false := by
  cases op <;> rfl

lemma Operator.not_isBlank_byte (op : Operator) : Bytes.isBlank op.byte = false := by
  cases op <;> rfl

/-- Every symbol that may stand between two operands denotes an operator. -/
lemma Operator.isSymbol_iff {b : UInt8} : isSymbol b = true ↔ ∃ op : Operator, b = op.byte := by
  constructor
  · intro h
    simp only [isSymbol, Bool.or_eq_true, beq_iff_eq] at h
    rcases h with ((rfl | rfl) | rfl) | rfl
    · exact ⟨.sub, rfl⟩
    · exact ⟨.add, rfl⟩
    · exact ⟨.mul, rfl⟩
    · exact ⟨.div, rfl⟩
  · rintro ⟨op, rfl⟩
    cases op <;> rfl

/-- A run of bytes of one class is known from the place where it begins, if no byte of the class
follows it. -/
lemma run_unique {p : UInt8 → Bool} {xs ys rest rest' : Bytes} (hxs : ∀ b ∈ xs, p b = true)
    (hys : ∀ b ∈ ys, p b = true) (hrest : ∀ b ∈ rest.head?, p b = false)
    (hrest' : ∀ b ∈ rest'.head?, p b = false) (h : xs ++ rest = ys ++ rest') :
    xs = ys ∧ rest = rest' := by
  induction xs generalizing ys with
  | nil =>
    cases ys with
    | nil => exact ⟨rfl, h⟩
    | cons b ys =>
      have hb := hrest b (by rw [← List.nil_append rest, h]; rfl)
      rw [hys b (by simp)] at hb
      cases hb
  | cons b xs ih =>
    cases ys with
    | nil =>
      have hb := hrest' b (by rw [← List.nil_append rest', ← h]; rfl)
      rw [hxs b (by simp)] at hb
      cases hb
    | cons c ys =>
      simp only [List.cons_append, List.cons.injEq] at h
      obtain ⟨rfl, h⟩ := h
      have hxs' : ∀ x ∈ xs, p x = true := fun x hx => hxs x (by simp [hx])
      have hys' : ∀ x ∈ ys, p x = true := fun x hx => hys x (by simp [hx])
      obtain ⟨rfl, hrests⟩ := ih hxs' hys' h
      exact ⟨rfl, hrests⟩

namespace Occurrence

variable {o o' : Occurrence} {bytes : Bytes}

/-! ## The parts of an occurrence -/

/-- The bytes behind the left operand. -/
def afterLeft (o : Occurrence) : Bytes :=
  o.leftGap ++ o.operator.byte :: (o.rightGap ++ (o.right ++ o.after))

lemma whole_eq_afterLeft (o : Occurrence) : o.whole = o.before ++ (o.left ++ o.afterLeft) := by
  simp [whole, expression, afterLeft]

/-- The bytes in front of the right operand. -/
def beforeRight (o : Occurrence) : Bytes :=
  o.before ++ o.left ++ o.leftGap ++ [o.operator.byte] ++ o.rightGap

lemma whole_eq_beforeRight (o : Occurrence) :
    o.whole = o.beforeRight ++ (o.right ++ o.after) := by
  simp [whole, expression, beforeRight]

lemma length_whole (o : Occurrence) :
    o.whole.length = o.before.length + o.left.length + o.leftGap.length + 1 + o.rightGap.length +
      o.right.length + o.after.length := by
  simp only [whole, expression, List.length_append, List.length_cons]
  omega

lemma not_isDigit_head_afterLeft (h : o.Valid) :
    ∀ b ∈ o.afterLeft.head?, Decimal.isDigit b = false := by
  intro b hb
  unfold afterLeft at hb
  cases hgap : o.leftGap with
  | nil =>
    rw [hgap, List.nil_append, List.head?_cons, Option.mem_some_iff] at hb
    exact hb ▸ o.operator.not_isDigit_byte
  | cons c gap =>
    rw [hgap, List.cons_append, List.head?_cons, Option.mem_some_iff] at hb
    exact hb ▸ not_isDigit_of_isBlank (h.isBlank_leftGap c (by simp [hgap]))

lemma not_isBlank_head_right (h : o.Valid) :
    ∀ b ∈ (o.right ++ o.after).head?, Bytes.isBlank b = false := by
  intro b hb
  rw [List.head?_append_of_ne_nil _ h.right_ne_nil] at hb
  exact not_isBlank_of_isDigit (h.isDigit_right b (List.mem_of_mem_head? hb))

/-- The blanks and the operator behind the left operand are known from the bytes there. -/
lemma afterLeft_unique (h : o.Valid) {gap gap' rest : Bytes} {op : Operator}
    (hgap : ∀ b ∈ gap, Bytes.isBlank b = true) (hgap' : ∀ b ∈ gap', Bytes.isBlank b = true)
    (hrest : ∀ b ∈ rest.head?, Bytes.isBlank b = false)
    (heq : o.afterLeft = gap ++ op.byte :: (gap' ++ rest)) :
    o.leftGap = gap ∧ o.operator = op ∧ o.rightGap = gap' ∧ o.right ++ o.after = rest := by
  have hop : ∀ (op : Operator) (rest : Bytes),
      ∀ b ∈ (op.byte :: rest).head?, Bytes.isBlank b = false := by
    intro op rest b hb
    rw [List.head?_cons, Option.mem_some_iff] at hb
    exact hb ▸ op.not_isBlank_byte
  obtain ⟨hleftGap, hcut⟩ := run_unique h.isBlank_leftGap hgap (hop _ _) (hop _ _) heq
  obtain ⟨hbyte, hcut⟩ := List.cons.inj hcut
  have hoperator : o.operator = op := by
    have := Operator.ofByte?_byte o.operator
    rwa [hbyte, Operator.ofByte?_byte, Option.some.injEq, eq_comm] at this
  obtain ⟨hrightGap, hright⟩ := run_unique h.isBlank_rightGap hgap'
    (not_isBlank_head_right h) hrest hcut
  exact ⟨hleftGap, hoperator, hrightGap, hright⟩

/-- **There is one way to cut at a given place,** up to where the right operand ends. -/
lemma split_unique (h : o.Valid) (h' : o'.Valid)
    (heq : o.left ++ o.afterLeft = o'.left ++ o'.afterLeft) :
    o.left = o'.left ∧ o.leftGap = o'.leftGap ∧ o.operator = o'.operator ∧
      o.rightGap = o'.rightGap ∧ o.right ++ o.after = o'.right ++ o'.after := by
  obtain ⟨hleft, hafter⟩ := run_unique h.isDigit_left h'.isDigit_left
    (not_isDigit_head_afterLeft h) (not_isDigit_head_afterLeft h') heq
  exact ⟨hleft, afterLeft_unique h h'.isBlank_leftGap h'.isBlank_rightGap
    (not_isBlank_head_right h') hafter⟩

/-! ## The first occurrence -/

lemma FirstIn.unique (h : o.FirstIn bytes) (h' : o'.FirstIn bytes) : o = o' := by
  have hlen : o.before.length = o'.before.length :=
    Nat.le_antisymm (h.leftmost o' h'.toIn) (h'.leftmost o h.toIn)
  have hwhole : o.before ++ (o.left ++ o.afterLeft) = o'.before ++ (o'.left ++ o'.afterLeft) := by
    rw [← whole_eq_afterLeft, ← whole_eq_afterLeft, h.whole_eq, h'.whole_eq]
  obtain ⟨hbefore, hrest⟩ := List.append_inj hwhole hlen
  obtain ⟨hleft, hleftGap, hoperator, hrightGap, hend⟩ := split_unique h.valid h'.valid hrest
  obtain ⟨hright, hafter⟩ := run_unique h.valid.isDigit_right h'.valid.isDigit_right
    h.not_isDigit_after h'.not_isDigit_after hend
  cases o
  cases o'
  simp only at hbefore hleft hleftGap hoperator hrightGap hright hafter
  subst hbefore hleft hleftGap hoperator hrightGap hright hafter
  rfl

/-- No digit stands in front of the first occurrence: with it an occurrence would begin further
to the left. -/
lemma FirstIn.not_isDigit_before (h : o.FirstIn bytes) :
    ∀ b ∈ o.before.getLast?, Decimal.isDigit b = false := by
  intro b hb
  by_contra hdigit
  rw [Bool.not_eq_false] at hdigit
  obtain ⟨before, hbefore⟩ : ∃ before, o.before = before ++ [b] :=
    ⟨_, (List.dropLast_append_getLast? b hb).symm⟩
  have hin : In { o with before := before, left := b :: o.left } bytes := by
    refine ⟨{ h.valid with left_ne_nil := by simp, isDigit_left := ?_ }, ?_⟩
    · intro x hx
      rcases List.mem_cons.mp hx with rfl | hx
      · exact hdigit
      · exact h.valid.isDigit_left x hx
    · rw [← h.whole_eq]
      simp [whole, expression, hbefore]
  have hle := h.leftmost _ hin
  rw [hbefore, List.length_append] at hle
  exact absurd hle (by simp)

/-! ## Occurrences and matches -/

/-- The texts of the pieces of `Pattern.expression`. -/
def texts (o : Occurrence) : List Bytes :=
  [o.left, o.leftGap, [o.operator.byte], o.rightGap, o.right]

lemma whole_eq_texts (o : Occurrence) : o.before ++ (o.texts.flatten ++ o.after) = o.whole := by
  simp [texts, whole, expression]

lemma Valid.reads_texts (h : o.Valid) : Pattern.expression.Reads o.texts := by
  refine .cons ⟨h.isDigit_left, ?_⟩ (.cons ⟨h.isBlank_leftGap, trivial⟩ (.cons ⟨?_, rfl⟩
    (.cons ⟨h.isBlank_rightGap, trivial⟩ (.cons ⟨h.isDigit_right, ?_⟩ .nil))))
  · exact List.length_pos_iff.mpr h.left_ne_nil
  · intro b hb
    rw [List.mem_singleton.mp hb]
    exact Operator.isSymbol_iff.mpr ⟨o.operator, rfl⟩
  · exact List.length_pos_iff.mpr h.right_ne_nil

lemma exists_valid_of_reads {texts : List Bytes} (h : Pattern.expression.Reads texts)
    (before after : Bytes) :
    ∃ o : Occurrence, o.Valid ∧ o.before = before ∧ o.texts = texts ∧ o.after = after := by
  unfold Pattern.Reads Pattern.expression at h
  rcases h with _ | ⟨hleft, _ | ⟨hleftGap, _ | ⟨hsymbol, _ | ⟨hrightGap, _ | ⟨hright, _ | _⟩⟩⟩⟩⟩
  obtain ⟨b, rfl⟩ := List.length_eq_one_iff.mp hsymbol.allows
  obtain ⟨op, rfl⟩ := Operator.isSymbol_iff.mp (hsymbol.accepts b (by simp))
  exact ⟨⟨before, _, _, op, _, _, after⟩,
    { left_ne_nil := List.length_pos_iff.mp hleft.allows
      isDigit_left := hleft.accepts
      isBlank_leftGap := hleftGap.accepts
      isBlank_rightGap := hrightGap.accepts
      right_ne_nil := List.length_pos_iff.mp hright.allows
      isDigit_right := hright.accepts }, rfl, rfl, rfl⟩

/-- What the search finds is the first occurrence. -/
lemma exists_firstIn_of_find? {m : Match} (h : Pattern.expression.find? bytes = some m) :
    ∃ o : Occurrence, o.FirstIn bytes ∧ m = ⟨o.before, o.texts, o.after⟩ := by
  obtain ⟨hreads, hwhole⟩ := Pattern.find?_sound h
  obtain ⟨o, hvalid, hbefore, htexts, hafter⟩ := exists_valid_of_reads hreads m.before m.after
  refine ⟨o, ⟨⟨hvalid, ?_⟩, ?_, ?_⟩, ?_⟩
  · rw [← whole_eq_texts, hbefore, htexts, hafter, hwhole]
  · rintro o' ⟨hvalid', hwhole'⟩
    rw [hbefore]
    rw [← whole_eq_texts] at hwhole'
    exact Pattern.leftmost_of_find? h hvalid'.reads_texts hwhole'
  · -- the right operand is the last piece
    rw [hafter]
    obtain ⟨rest, -, hstart⟩ := Pattern.atStart?_of_find? h
    have hpieces : Pattern.expression =
        Pattern.expression.dropLast ++ [⟨Decimal.isDigit, .some, true⟩] := rfl
    rw [hpieces] at hstart
    exact Pattern.not_accepts_after (by simp) hstart
  · rw [hbefore, htexts, hafter]

lemma In.exists_find? (h : o.In bytes) : ∃ m, Pattern.expression.find? bytes = some m := by
  obtain ⟨m, hfind, -⟩ := Pattern.find?_complete h.valid.reads_texts o.before o.after
  rw [whole_eq_texts, h.whole_eq] at hfind
  exact ⟨m, hfind⟩

lemma exists_firstIn (h : ∃ o : Occurrence, o.In bytes) : ∃ o : Occurrence, o.FirstIn bytes := by
  obtain ⟨o, ho⟩ := h
  obtain ⟨m, hfind⟩ := ho.exists_find?
  obtain ⟨o', hfirst, -⟩ := exists_firstIn_of_find? hfind
  exact ⟨o', hfirst⟩

lemma FirstIn.find?_eq (h : o.FirstIn bytes) :
    Pattern.expression.find? bytes = some ⟨o.before, o.texts, o.after⟩ := by
  obtain ⟨m, hfind⟩ := h.toIn.exists_find?
  obtain ⟨o', hfirst, rfl⟩ := exists_firstIn_of_find? hfind
  rw [hfind, h.unique hfirst]

def operatorSpan (o : Occurrence) : Span :=
  ⟨o.before.length + o.left.length + o.leftGap.length, 1⟩

/-- The groups of the first occurrence, with their places. -/
lemma FirstIn.groups?_eq (h : o.FirstIn bytes) :
    Pattern.expression.groups? bytes =
      some [⟨o.left, o.leftSpan⟩, ⟨[o.operator.byte], o.operatorSpan⟩,
        ⟨o.right, o.rightSpan⟩] := by
  rw [Pattern.groups?, h.find?_eq]
  rfl

lemma groups?_eq_none_iff :
    Pattern.expression.groups? bytes = none ↔ ¬∃ o : Occurrence, o.In bytes := by
  rw [Pattern.groups?, Option.map_eq_none_iff]
  constructor
  · rintro hnone ⟨o, ho⟩
    obtain ⟨m, hfind⟩ := ho.exists_find?
    rw [hnone] at hfind
    cases hfind
  · intro hnowhere
    by_contra hfind
    obtain ⟨m, hfind⟩ := Option.ne_none_iff_exists'.mp hfind
    obtain ⟨o, hfirst, -⟩ := exists_firstIn_of_find? hfind
    exact hnowhere ⟨o, hfirst.toIn⟩

/-! ## The operation of the first occurrence -/

/-- What an occurrence in `input` is read as; the left operand is refused first. -/
def operation (o : Occurrence) (input : Bytes) : Except Fault Operation :=
  if ¬FitsInt64 (Decimal.value o.left) then .error (.operandTooLarge o.left o.leftSpan input)
  else if ¬FitsInt64 (Decimal.value o.right) then
    .error (.operandTooLarge o.right o.rightSpan input)
  else .ok ⟨Int64.ofNat (Decimal.value o.left), o.operator, Int64.ofNat (Decimal.value o.right)⟩

lemma operation_of_left_too_large (hl : ¬FitsInt64 (Decimal.value o.left)) (input : Bytes) :
    o.operation input = .error (.operandTooLarge o.left o.leftSpan input) :=
  if_pos hl

lemma operation_of_right_too_large (hl : FitsInt64 (Decimal.value o.left))
    (hr : ¬FitsInt64 (Decimal.value o.right)) (input : Bytes) :
    o.operation input = .error (.operandTooLarge o.right o.rightSpan input) := by
  rw [operation, if_neg (not_not.mpr hl), if_pos hr]

lemma operation_of_fits (hl : FitsInt64 (Decimal.value o.left))
    (hr : FitsInt64 (Decimal.value o.right)) (input : Bytes) :
    o.operation input =
      .ok ⟨Int64.ofNat (Decimal.value o.left), o.operator,
        Int64.ofNat (Decimal.value o.right)⟩ := by
  rw [operation, if_neg (not_not.mpr hl), if_neg (not_not.mpr hr)]

lemma readOperand_digits (input : Bytes) {g : Group} (hne : g.text ≠ [])
    (h : ∀ b ∈ g.text, Decimal.isDigit b = true) :
    readOperand input g =
      if FitsInt64 (Decimal.value g.text) then .ok (Int64.ofNat (Decimal.value g.text))
      else .error (.operandTooLarge g.text g.span input) := by
  rw [readOperand, Decimal.toInt64_digits hne h]
  by_cases hfits : FitsInt64 (Decimal.value g.text)
  · rw [if_pos hfits, if_pos hfits]
  · rw [if_neg hfits, if_neg hfits]

/-- The operator that was found is always known. -/
lemma FirstIn.parse_eq (h : o.FirstIn bytes) : Operation.parse bytes = o.operation bytes := by
  have hleft := readOperand_digits bytes (g := ⟨o.left, o.leftSpan⟩) h.valid.left_ne_nil
    h.valid.isDigit_left
  have hright := readOperand_digits bytes (g := ⟨o.right, o.rightSpan⟩) h.valid.right_ne_nil
    h.valid.isDigit_right
  have hsymbol : Operator.ofSymbol? [o.operator.byte] = some o.operator :=
    Operator.ofByte?_byte o.operator
  rw [Operation.parse, h.groups?_eq]
  simp only [Operation.ofGroups, hleft, hright, hsymbol, operation, ite_not]
  by_cases hl : FitsInt64 (Decimal.value o.left)
  · rw [if_pos hl, if_pos hl]
    by_cases hr : FitsInt64 (Decimal.value o.right)
    · rw [if_pos hr, if_pos hr]
      rfl
    · rw [if_neg hr, if_neg hr]
      rfl
  · rw [if_neg hl, if_neg hl]
    rfl

lemma parse_of_not_in (h : ¬∃ o : Occurrence, o.In bytes) :
    Operation.parse bytes = .error (.noExpression bytes) := by
  rw [Operation.parse, groups?_eq_none_iff.mpr h]

/-- An operation is read from a first occurrence with operands that fit. -/
lemma exists_firstIn_of_parse {p : Operation} (h : Operation.parse bytes = .ok p) :
    ∃ o : Occurrence, o.FirstIn bytes ∧ FitsInt64 (Decimal.value o.left) ∧
      FitsInt64 (Decimal.value o.right) ∧
      p = ⟨Int64.ofNat (Decimal.value o.left), o.operator,
        Int64.ofNat (Decimal.value o.right)⟩ := by
  by_cases hin : ∃ o : Occurrence, o.In bytes
  · obtain ⟨o, hfirst⟩ := exists_firstIn hin
    rw [hfirst.parse_eq] at h
    by_cases hl : FitsInt64 (Decimal.value o.left)
    · by_cases hr : FitsInt64 (Decimal.value o.right)
      · rw [operation_of_fits hl hr, Except.ok.injEq] at h
        exact ⟨o, hfirst, hl, hr, h.symm⟩
      · rw [operation_of_right_too_large hl hr] at h
        cases h
    · rw [operation_of_left_too_large hl] at h
      cases h
  · rw [parse_of_not_in hin] at h
    cases h

lemma operation_ne_noExpression (o : Occurrence) (input input' : Bytes) :
    o.operation input ≠ .error (.noExpression input') := by
  unfold operation
  split
  · simp
  · split <;> simp

end Occurrence

/-- **A byte sequence is read as its first occurrence of an expression.**  It is refused for
having no expression exactly if there is no occurrence.  Otherwise what is read is one
occurrence: the one that begins furthest to the left.  Its operands go as far as there are
digits, to the left and to the right, and nothing but the end of its right operand could be cut
otherwise at that place.  If it is refused, so is the whole. -/
theorem Operation.parse_leftmost (bytes : Bytes) :
    ((∃ input, parse bytes = .error (.noExpression input)) ↔ ¬∃ o : Occurrence, o.In bytes) ∧
    ((¬∃ o : Occurrence, o.In bytes) → parse bytes = .error (.noExpression bytes)) ∧
    ((∃ o : Occurrence, o.In bytes) →
      ∃ o : Occurrence, o.In bytes ∧
        (∀ o' : Occurrence, o'.In bytes → o.before.length ≤ o'.before.length) ∧
        (∀ b ∈ o.before.getLast?, Decimal.isDigit b = false) ∧
        (∀ b ∈ o.after.head?, Decimal.isDigit b = false) ∧
        (∀ o' : Occurrence, o'.In bytes → o'.before.length = o.before.length →
          o'.left = o.left ∧ o'.leftGap = o.leftGap ∧ o'.operator = o.operator ∧
            o'.rightGap = o.rightGap) ∧
        parse bytes = o.operation bytes) := by
  refine ⟨⟨?_, fun h => ⟨bytes, Occurrence.parse_of_not_in h⟩⟩, Occurrence.parse_of_not_in, ?_⟩
  · rintro ⟨input, hparse⟩ hin
    obtain ⟨o, hfirst⟩ := Occurrence.exists_firstIn hin
    rw [hfirst.parse_eq] at hparse
    exact o.operation_ne_noExpression bytes input hparse
  · intro hin
    obtain ⟨o, hfirst⟩ := Occurrence.exists_firstIn hin
    refine ⟨o, hfirst.toIn, hfirst.leftmost, hfirst.not_isDigit_before, hfirst.not_isDigit_after,
      ?_, hfirst.parse_eq⟩
    intro o' hin' hlen
    have hwhole : o'.before ++ (o'.left ++ o'.afterLeft) = o.before ++ (o.left ++ o.afterLeft) := by
      rw [← Occurrence.whole_eq_afterLeft, ← Occurrence.whole_eq_afterLeft, hin'.whole_eq,
        hfirst.whole_eq]
    obtain ⟨-, hrest⟩ := List.append_inj hwhole hlen
    obtain ⟨hleft, hleftGap, hoperator, hrightGap, -⟩ :=
      Occurrence.split_unique hin'.valid hfirst.valid hrest
    exact ⟨hleft, hleftGap, hoperator, hrightGap⟩

end Reckoner
