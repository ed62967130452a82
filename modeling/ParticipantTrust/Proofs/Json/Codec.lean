import ParticipantTrust.Proofs.Json.Scalar

namespace ParticipantTrust.Json

-- Layouts put nothing but blanks between tokens.
structure Layout.Spaces (layout : Layout) : Prop where
  line : ∀ depth, Blanks (layout.line depth)
  gap : Blanks layout.gap

theorem Layout.compact_spaces : Layout.compact.Spaces where
  line _ := by simp [Layout.compact, Blanks]
  gap := by simp [Layout.compact, Blanks]

theorem Layout.indented_spaces : Layout.indented.Spaces where
  line depth := by
    intro c hc
    rcases List.mem_cons.mp hc with rfl | hc
    · rfl
    · rw [List.eq_of_mem_replicate hc]
      rfl
  gap := by simp [Layout.indented, Blanks, isBlank]

-- Wherever a written value stands in a text, it is read back as one that is `same`, and nothing else is
-- read.
def Codec.Restores {α : Type} (codec : Codec α) (same : α → α → Prop) (room : Nat) (value : α) :
    Prop :=
  ∀ (layout : Layout) (depth : Nat) (before rest : List Char), layout.Spaces → Blanks before →
    EndsNumber rest →
      ∃ back, codec.read room (before ++ (codec.write value).render layout depth ++ rest) =
        .ok (back, rest) ∧ same value back

theorem render_integer (layout : Layout) (depth n : Nat) :
    (Value.integer n).render layout depth = Nat.toDigits 10 n := by
  rw [Value.render, integerText, if_neg (by omega)]
  rfl

theorem isBlank_of_isDigit {c : Char} (h : c.isDigit = true) : isBlank c = false := by
  have hne := fun d hd => Decimal.ne_of_isDigit h (d := d) hd
  simp [isBlank, hne ' ' rfl, hne '\n' rfl, hne '\t' rfl, hne '\r' rfl]

inductive Kind where
  | null
  | boolean
  | integer
  | text
  | array
  | object
deriving DecidableEq

def Value.kind : Value → Kind
  | .null => .null
  | .boolean _ => .boolean
  | .integer _ => .integer
  | .text _ => .text
  | .array _ => .array
  | .object _ => .object

-- What a value is of which this is the first character.
def kindOf (c : Char) : Option Kind :=
  if c.isDigit then some .integer
  else
    match c with
    | 'n' => some .null
    | 't' | 'f' => some .boolean
    | '-' => some .integer
    | '"' => some .text
    | '[' => some .array
    | '\x7b' => some .object
    | _ => none

theorem isBlank_of_kindOf {c : Char} {kind : Kind} (h : kindOf c = some kind) : isBlank c = false := by
  cases hblank : isBlank c with
  | false => rfl
  | true =>
      simp only [isBlank, Bool.or_eq_true, beq_iff_eq] at hblank
      rcases hblank with ((rfl | rfl) | rfl) | rfl <;> cases h

theorem exists_bracketed_cons (layout : Layout) (depth : Nat) (opening closing : Char)
    (items : List (List Char)) :
    ∃ cs, bracketed layout depth opening closing items = opening :: cs := by
  cases items with
  | nil => exact ⟨_, rfl⟩
  | cons item items => exact ⟨_, rfl⟩

theorem exists_render_kind (layout : Layout) (depth : Nat) (v : Value) :
    ∃ c cs, v.render layout depth = c :: cs ∧ kindOf c = some v.kind := by
  cases v with
  | null => exact ⟨_, _, rfl, rfl⟩
  | boolean b => cases b <;> exact ⟨_, _, rfl, rfl⟩
  | integer n =>
      rw [Value.render, integerText]
      split
      · exact ⟨_, _, rfl, rfl⟩
      · obtain ⟨c, cs, hcs, hc⟩ := Decimal.exists_toDigits_cons n.natAbs
        exact ⟨c, cs, hcs, if_pos hc⟩
  | text s => exact ⟨_, _, rfl, rfl⟩
  | array items =>
      obtain ⟨cs, hcs⟩ := exists_bracketed_cons layout depth '[' ']'
        (renderItems layout (depth + 1) items)
      exact ⟨_, cs, hcs, rfl⟩
  | object members =>
      obtain ⟨cs, hcs⟩ := exists_bracketed_cons layout depth '\x7b' '\x7d'
        (renderMembers layout (depth + 1) members)
      exact ⟨_, cs, hcs, rfl⟩

theorem readSeen_toDigits (n : Nat) (hn : n < UInt64.size) {before rest : List Char}
    (hbefore : Blanks before) (hrest : EndsNumber rest) :
    readSeen (before ++ Nat.toDigits 10 n ++ rest) = .ok (.integer n, rest) := by
  have hread := readNumber_toDigits n hn hrest
  obtain ⟨c, cs, hcs, hc⟩ := Decimal.exists_toDigits_cons n
  have hne := fun d hd => Decimal.ne_of_isDigit hc (d := d) hd
  rw [hcs, List.cons_append] at hread
  rw [hcs, readSeen, List.append_assoc, skipBlanks_append hbefore, List.cons_append,
    skipBlanks_cons (isBlank_of_isDigit hc)]
  simp [hne 'n' rfl, hne 't' rfl, hne 'f' rfl, hne '"' rfl, hne '[' rfl, hne '\x7b' rfl, hc, hread]
  rfl

theorem readSeen_quote (s : String) {before : List Char} (hbefore : Blanks before) (rest : List Char) :
    readSeen (before ++ quote s ++ rest) = .ok (.text s, rest) := by
  rw [readSeen, List.append_assoc, skipBlanks_append hbefore, quote_append, skipBlanks_cons rfl]
  simp [readStringBody_flatMap]

namespace Codec

theorem unsigned_toDigits (type : String) {limit n : Nat} (hn : n < limit)
    (hlimit : limit ≤ UInt64.size) {before rest : List Char} (hbefore : Blanks before)
    (hrest : EndsNumber rest) :
    unsigned type limit (before ++ Nat.toDigits 10 n ++ rest) = .ok (n, rest) := by
  simp only [unsigned, readScalar, readSeen_toDigits n (hn.trans_le hlimit) hbefore hrest, ok_bind]
  rw [if_pos ⟨by omega, by omega⟩]
  rfl

theorem u64_restores (room : Nat) (n : UInt64) : u64.Restores Eq room n := by
  intro layout depth before rest _ hbefore hrest
  refine ⟨n, ?_, rfl⟩
  have hread := unsigned_toDigits "u64" n.toNat_lt le_rfl hbefore hrest
  simp only [u64, render_integer]
  rw [hread, ok_map, UInt64.ofNat_toNat]

theorem u32_restores (room : Nat) (n : UInt32) : u32.Restores Eq room n := by
  intro layout depth before rest _ hbefore hrest
  refine ⟨n, ?_, rfl⟩
  have hread := unsigned_toDigits "u32" n.toNat_lt (by decide) hbefore hrest
  simp only [u32, render_integer]
  rw [hread, ok_map, UInt32.ofNat_toNat]

theorem text_restores (room : Nat) (s : String) : text.Restores Eq room s := by
  intro layout depth before rest _ hbefore _
  refine ⟨s, ?_, rfl⟩
  simp only [text, Value.render, readScalar, readSeen_quote s hbefore, ok_bind]
  rfl

theorem decimal_restores (room : Nat) (v : Decimal) (hscale : Decimal.ScaleFits v.scale) :
    decimal.Restores Decimal.SameValue room v := by
  intro layout depth before rest _ hbefore _
  obtain ⟨w, hw, hvalue⟩ := Decimal.ofText_text v hscale
  refine ⟨w, ?_, (Decimal.sameValue_iff v w).mpr hvalue.symm⟩
  have hof : decimalOf (.text v.text) = .ok w := by
    rw [decimalOf, hw]
    rfl
  simp only [decimal, Value.render]
  cases room with
  | zero =>
      simp only [readDecimal, readSeen_quote v.text hbefore, ok_bind, hof]
      rfl
  | succ room =>
      simp only [readDecimal, readSeen_quote v.text hbefore, ok_bind, hof]
      rfl

theorem variant_restores {α : Type} (variants : List (String × α)) (name : α → String) (room : Nat)
    (value : α) (hlookup : variants.lookup (name value) = some value) :
    (variant variants name).Restores Eq room value := by
  intro layout depth before rest _ hbefore _
  refine ⟨value, ?_, rfl⟩
  simp only [variant, Value.render]
  rw [List.append_assoc, skipBlanks_append hbefore, quote_append, skipBlanks_cons rfl]
  simp [readStringBody_flatMap, findVariant, hlookup]

-- The first character tells `null` from all other values.
theorem exists_render_cons (layout : Layout) (depth : Nat) {value : Value} (h : value ≠ .null) :
    ∃ c cs, value.render layout depth = c :: cs ∧ isBlank c = false ∧ c ≠ 'n' := by
  obtain ⟨c, cs, hcs, hkind⟩ := exists_render_kind layout depth value
  refine ⟨c, cs, hcs, isBlank_of_kindOf hkind, ?_⟩
  rintro rfl
  cases value <;> first | exact h rfl | cases hkind

theorem optional_restores {α : Type} {codec : Codec α} {same : α → α → Prop} {room : Nat}
    (hnull : ∀ value, codec.write value ≠ .null) (value : Option α)
    (h : ∀ v ∈ value, codec.Restores same room v) :
    codec.optional.Restores (Option.Rel same) room value := by
  intro layout depth before rest hlayout hbefore hrest
  cases value with
  | none =>
      refine ⟨none, ?_, .none⟩
      simp only [optional, Value.render]
      rw [List.append_assoc, skipBlanks_append hbefore, List.cons_append, skipBlanks_cons rfl]
      rfl
  | some v =>
      obtain ⟨back, hread, hsame⟩ := h v rfl layout depth [] rest hlayout (by simp [Blanks]) hrest
      refine ⟨some back, ?_, .some hsame⟩
      obtain ⟨c, cs, hrender, hblank, hn⟩ := exists_render_cons layout depth (hnull v)
      rw [hrender] at hread
      simp only [optional]
      rw [hrender, List.append_assoc, skipBlanks_append hbefore, List.cons_append,
        skipBlanks_cons hblank]
      simp at hread
      simp [hn, hread]

end Codec

end ParticipantTrust.Json
