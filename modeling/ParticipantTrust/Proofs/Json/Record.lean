import ParticipantTrust.Json.Record
import ParticipantTrust.Proofs.Json.Codec

namespace ParticipantTrust.Json

def memberText (layout : Layout) (depth : Nat) (member : String × Value) : List Char :=
  quote member.1 ++ ':' :: layout.gap ++ member.2.render layout depth

theorem renderMembers_eq_map (layout : Layout) (depth : Nat) (members : List (String × Value)) :
    renderMembers layout depth members = members.map (memberText layout depth) := by
  induction members with
  | nil => rfl
  | cons member members ih => rw [renderMembers, ih, List.map_cons]; rfl

namespace Record

variable {τ : Type} {layout : Layout}

-- Wherever the members of `record` with these `fields` stand, reading them one after the other turns
-- `current` into a record with `post`.
def Refills (room : Nat) (record : τ) (post : τ → Prop) : List (Field τ) → τ → Prop
  | [], current => post current
  | field :: fields, current =>
    ∀ (layout : Layout) (depth : Nat) (before rest : List Char), layout.Spaces → Blanks before →
      EndsNumber rest →
        ∃ update, field.read room (before ++ (field.write record).render layout depth ++ rest) =
          .ok (update, rest) ∧ Refills room record post fields (update current)

theorem Refills.field {α : Type} {codec : Codec α} {same : α → α → Prop} {room : Nat} {record : τ}
    {post : τ → Prop} {fields : List (Field τ)} {current : τ} {name : String} {absence : Absence}
    {get : τ → α} {set : α → τ → τ} (h : codec.Restores same room (get record))
    (hfields : ∀ value, same (get record) value → Refills room record post fields (set value current)) :
    Refills room record post (codec.field name absence get set :: fields) current := by
  intro layout depth before rest hlayout hbefore hrest
  obtain ⟨back, hread, hsame⟩ := h layout depth before rest hlayout hbefore hrest
  refine ⟨set back, ?_, hfields back hsame⟩
  simp only [Codec.field, hread, ok_map]

def member (layout : Layout) (depth : Nat) (record : τ) (field : Field τ) : List Char :=
  quote field.name ++ ':' :: layout.gap ++ (field.write record).render layout depth

theorem renderMembers_eq (layout : Layout) (depth : Nat) (record : τ) (fields : List (Field τ)) :
    renderMembers layout depth (fields.map fun field => (field.name, field.write record)) =
      fields.map (member layout depth record) := by
  rw [renderMembers_eq_map, List.map_map]
  rfl

-- Nothing stands in front of the first member of an object, a comma in front of the others.
def separator (first : Bool) : List Char := if first then [] else [',']

-- The members of an object that are still to be read, with the rest of the text from `close` on.
def remaining (line close : List Char) : Bool → List (List Char) → List Char
  | _, [] => close
  | first, item :: items => separator first ++ line ++ item ++ remaining line close false items

theorem length_remaining (line close : List Char) (first : Bool) (items : List (List Char)) :
    items.length + close.length ≤ (remaining line close first items).length + first.toNat := by
  induction items generalizing first with
  | nil => simp [remaining]
  | cons item items ih =>
      have hrest := ih false
      cases first <;> simp [remaining, separator] at hrest ⊢ <;> omega

theorem remaining_false_endsNumber (line : List Char) {close : List Char} (hclose : EndsNumber close)
    (items : List (List Char)) : EndsNumber (remaining line close false items) := by
  cases items with
  | nil => exact hclose
  | cons item items => exact endsNumber_cons _ rfl (by decide) rfl

-- A written list or object ends with blanks, its closing bracket and the text behind it.
theorem bracketed_append (hlayout : layout.Spaces) (depth : Nat) (opening closing : Char)
    (items : List (List Char)) (rest : List Char) :
    ∃ blanks, Blanks blanks ∧ bracketed layout depth opening closing items ++ rest =
      opening :: remaining (layout.line (depth + 1)) (blanks ++ closing :: rest) true items := by
  have hothers : ∀ items : List (List Char),
      items.flatMap (fun item => ',' :: layout.line (depth + 1) ++ item) ++
          (layout.line depth ++ closing :: rest) =
        remaining (layout.line (depth + 1)) (layout.line depth ++ closing :: rest) false items := by
    intro items
    induction items with
    | nil => rfl
    | cons item items ih => simp [remaining, separator, ← ih]
  cases items with
  | nil => exact ⟨[], by simp [Blanks], rfl⟩
  | cons item items =>
      refine ⟨layout.line depth, hlayout.line depth, ?_⟩
      simp [bracketed, remaining, separator, ← hothers]

theorem readKey_flatMap (name : String) (rest : List Char) :
    readKey (name.toList.flatMap escape ++ '"' :: rest) = .ok (.key name rest) := by
  simp only [readKey, readStringBody_flatMap, ok_bind, String.ofList_toList]
  rfl

theorem nextKey_member (first : Bool) {line : List Char} (hline : Blanks line) (name : String)
    (rest : List Char) :
    nextKey first (separator first ++ line ++ quote name ++ rest) = .ok (.key name rest) := by
  have hskip : skipBlanks (line ++ (quote name ++ rest)) =
      '"' :: (name.toList.flatMap escape ++ '"' :: rest) := by
    rw [skipBlanks_append hline, quote_append, skipBlanks_cons rfl]
  rw [List.append_assoc, List.append_assoc]
  cases first with
  | true => simp [separator, nextKey, hskip, readKey_flatMap]
  | false =>
      simp only [separator, nextKey, Bool.false_eq_true, if_false, List.cons_append, List.nil_append]
      rw [skipBlanks_cons rfl]
      simp [hskip, readKey_flatMap]

theorem nextKey_closed (first : Bool) {blanks : List Char} (hblanks : Blanks blanks)
    (rest : List Char) : nextKey first (blanks ++ '\x7d' :: rest) = .ok (.closed rest) := by
  simp [nextKey, skipBlanks_append hblanks, skipBlanks_cons (c := '\x7d') rfl]

theorem find?_name {done fields : List (Field τ)} {field : Field τ}
    (h : ((done ++ field :: fields).map Field.name).Nodup) :
    (done ++ field :: fields).find? (fun other => other.name = field.name) = some field ∧
      field.name ∉ done.map Field.name := by
  have hnew : field.name ∉ done.map Field.name := by
    intro hmem
    rw [List.map_append, List.map_cons] at h
    exact List.disjoint_of_nodup_append h hmem (List.mem_cons_self ..)
  refine ⟨?_, hnew⟩
  rw [List.find?_append, List.find?_eq_none.mpr, List.find?_cons_of_pos (by simp), Option.none_or]
  intro other hother
  rw [decide_eq_true_eq]
  exact fun heq => hnew (heq ▸ List.mem_map_of_mem hother)

theorem readMembers_closed {r : Record τ} {met : List String} {blanks : List Char}
    (hmet : ∀ field ∈ r.fields, field.name ∈ met) (hblanks : Blanks blanks) (room fuel : Nat)
    (first : Bool) (current : τ) (rest : List Char) :
    r.readMembers room (fuel + 1) met first current (blanks ++ '\x7d' :: rest) =
      .ok (current, rest) := by
  have hall : r.fields.find? (fun field => decide (field.absence = .refused ∧ field.name ∉ met)) =
      none := by
    rw [List.find?_eq_none]
    intro field hfield
    rw [decide_eq_true_eq]
    exact fun hmissing => hmissing.2 (hmet field hfield)
  rw [readMembers, nextKey_closed first hblanks, ok_bind]
  simp only [hall]
  rfl

theorem readMembers_member {r : Record τ} {met : List String} {field : Field τ} {room : Nat}
    {record : τ} {update : τ → τ} {depth : Nat} {rest : List Char}
    (hfind : r.fields.find? (fun other => other.name = field.name) = some field)
    (hnew : field.name ∉ met) (hline : Blanks (layout.line depth))
    (hread : field.read room (layout.gap ++ (field.write record).render layout depth ++ rest) =
      .ok (update, rest)) (fuel : Nat) (first : Bool) (current : τ) :
    r.readMembers room (fuel + 1) met first current
        (separator first ++ layout.line depth ++ member layout depth record field ++ rest) =
      r.readMembers room fuel (field.name :: met) false (update current) rest := by
  have hkey := nextKey_member first hline field.name
    (':' :: (layout.gap ++ (field.write record).render layout depth ++ rest))
  rw [readMembers, member]
  simp only [List.append_assoc, List.cons_append] at hkey hread ⊢
  rw [hkey, ok_bind]
  simp only [hfind]
  rw [if_neg hnew, readColon, skipBlanks_cons rfl]
  simp only [ok_bind, hread]

-- What an object holds behind its first members is read as what its other fields are filled with. The
-- names that have been met are those of the fields that are done.
theorem readMembers_remaining {r : Record τ} (hnames : (r.fields.map Field.name).Nodup) {room : Nat}
    {record : τ} {post : τ → Prop} (hlayout : layout.Spaces) (depth : Nat) {blanks : List Char}
    (hblanks : Blanks blanks) (rest : List Char) (fields : List (Field τ)) :
    ∀ (done : List (Field τ)) (fuel : Nat) (first : Bool) (current : τ), r.fields = done ++ fields →
      fields.length < fuel → Refills room record post fields current →
      ∃ back, r.readMembers room fuel (done.map Field.name).reverse first current
          (remaining (layout.line depth) (blanks ++ '\x7d' :: rest) first
            (fields.map (member layout depth record))) = .ok (back, rest) ∧ post back := by
  induction fields with
  | nil =>
      intro done fuel first current hfields hfuel h
      obtain ⟨fuel, rfl⟩ := Nat.exists_eq_succ_of_ne_zero (Nat.ne_zero_of_lt hfuel)
      refine ⟨current, readMembers_closed ?_ hblanks room fuel first current rest, h⟩
      intro field hfield
      rw [hfields, List.append_nil] at hfield
      exact List.mem_reverse.mpr (List.mem_map_of_mem hfield)
  | cons field fields ih =>
      intro done fuel first current hfields hfuel h
      obtain ⟨fuel, rfl⟩ := Nat.exists_eq_succ_of_ne_zero (Nat.ne_zero_of_lt hfuel)
      obtain ⟨hfind, hnew⟩ := find?_name (hfields ▸ hnames)
      have hends := remaining_false_endsNumber (layout.line depth)
        (EndsNumber.of_blanks hblanks (endsNumber_cons (c := '\x7d') rest rfl (by decide) rfl))
        (fields.map (member layout depth record))
      obtain ⟨update, hread, hnext⟩ := h layout depth layout.gap _ hlayout hlayout.gap hends
      obtain ⟨back, hback, hpost⟩ := ih (done ++ [field]) fuel false (update current)
        (by rw [hfields, List.append_assoc]; rfl) (Nat.lt_of_succ_lt_succ hfuel) hnext
      refine ⟨back, ?_, hpost⟩
      rw [List.map_append, List.reverse_append] at hback
      rw [List.map_cons, remaining, readMembers_member (hfields ▸ hfind) (by rwa [List.mem_reverse])
        (hlayout.line depth) hread fuel first current]
      exact hback

theorem readSeen_brace {before : List Char} (hbefore : Blanks before) (rest : List Char) :
    readSeen (before ++ '\x7b' :: rest) = .ok (.map, rest) := by
  simp [readSeen, skipBlanks_append hbefore, skipBlanks_cons (c := '\x7b') rfl]

-- A record is restored when its fields can be told by their names and filling them restores it.
theorem restores {r : Record τ} (hnames : (r.fields.map Field.name).Nodup) {same : τ → τ → Prop}
    {room : Nat} {record : τ} (h : Refills room record (same record) r.fields r.blank) :
    r.codec.Restores same (room + 1) record := by
  intro layout depth before rest hlayout hbefore _
  obtain ⟨blanks, hblanks, htext⟩ := bracketed_append hlayout depth '\x7b' '\x7d'
    (r.fields.map (member layout (depth + 1) record)) rest
  -- Every member takes a character at least, which is why there is fuel for all of them.
  have hfuel : r.fields.length < (remaining (layout.line (depth + 1)) (blanks ++ '\x7d' :: rest) true
      (r.fields.map (member layout (depth + 1) record))).length + 1 := by
    have hlength := length_remaining (layout.line (depth + 1)) (blanks ++ '\x7d' :: rest) true
      (r.fields.map (member layout (depth + 1) record))
    simp only [List.length_map, List.length_append, List.length_cons, Bool.toNat_true] at hlength
    omega
  obtain ⟨back, hback, hsame⟩ := readMembers_remaining hnames hlayout (depth + 1) hblanks rest r.fields
    [] _ true r.blank rfl hfuel h
  refine ⟨back, ?_, hsame⟩
  simp only [codec, read, write, Value.render, renderMembers_eq, List.append_assoc, htext,
    readSeen_brace hbefore, ok_bind]
  exact hback

end Record

-- The text of a restored value is decoded to it.
theorem Codec.Restores.decode_encode {α : Type} {codec : Codec α} {same : α → α → Prop} {value : α}
    (h : codec.Restores same mostBrackets value) {layout : Layout} (hlayout : layout.Spaces) :
    ∃ back, codec.decode (codec.encode layout value) = .ok back ∧ same value back := by
  obtain ⟨back, hread, hsame⟩ := h layout 0 [] [] hlayout (by simp [Blanks]) (by simp [EndsNumber])
  refine ⟨back, ?_, hsame⟩
  rw [List.nil_append, List.append_nil] at hread
  rw [decode, encode, Value.write, String.toList_ofList, hread]
  rfl

end ParticipantTrust.Json
