import ParticipantTrust.Proofs.Json.Record

namespace ParticipantTrust.Json

theorem quote_append_inj {s s' : String} {rest rest' : List Char}
    (h : quote s ++ rest = quote s' ++ rest') : s = s' ∧ rest = rest' := by
  rw [quote_append, quote_append, List.cons.injEq] at h
  have hread := congrArg readStringBody h.2
  rw [readStringBody_flatMap, readStringBody_flatMap, Except.ok.injEq, Prod.mk.injEq] at hread
  exact ⟨String.toList_injective hread.1, hread.2⟩

theorem toDigits_append_inj {n m : Nat} {rest rest' : List Char} (hrest : EndsNumber rest)
    (hrest' : EndsNumber rest') (h : Nat.toDigits 10 n ++ rest = Nat.toDigits 10 m ++ rest') :
    n = m ∧ rest = rest' := by
  have htake := congrArg (List.takeWhile Char.isDigit) h
  have hdrop := congrArg (List.dropWhile Char.isDigit) h
  rw [takeWhile_isDigit (Decimal.isDigits_toDigits n) hrest,
    takeWhile_isDigit (Decimal.isDigits_toDigits m) hrest'] at htake
  rw [dropWhile_isDigit (Decimal.isDigits_toDigits n) hrest,
    dropWhile_isDigit (Decimal.isDigits_toDigits m) hrest'] at hdrop
  have hvalue := congrArg (fun digits => Nat.ofDigitChars 10 digits 0) htake
  simp only [Nat.ofDigitChars_ten_toDigits] at hvalue
  exact ⟨hvalue, hdrop⟩

theorem integerText_append_inj {n m : Int} {rest rest' : List Char} (hrest : EndsNumber rest)
    (hrest' : EndsNumber rest') (h : integerText n ++ rest = integerText m ++ rest') :
    n = m ∧ rest = rest' := by
  have hminus : ∀ (k : Nat) (cs cs' : List Char), Nat.toDigits 10 k ++ cs ≠ '-' :: cs' := by
    intro k cs cs' heq
    obtain ⟨c, ds, hds, hc⟩ := Decimal.exists_toDigits_cons k
    rw [hds, List.cons_append, List.cons.injEq] at heq
    exact Decimal.ne_of_isDigit hc rfl heq.1
  unfold integerText at h
  split_ifs at h with hn hm hm
  · obtain ⟨habs, htail⟩ := toDigits_append_inj hrest hrest' (List.cons.inj h).2
    exact ⟨by omega, htail⟩
  · exact absurd h.symm (hminus _ _ _)
  · exact absurd h (hminus _ _ _)
  · obtain ⟨habs, htail⟩ := toDigits_append_inj hrest hrest' h
    exact ⟨by omega, htail⟩

theorem kind_eq_of_render_append {layout : Layout} {depth : Nat} {v w : Value}
    {rest rest' : List Char} (h : v.render layout depth ++ rest = w.render layout depth ++ rest') :
    v.kind = w.kind := by
  obtain ⟨c, cs, hcs, hkind⟩ := exists_render_kind layout depth v
  obtain ⟨d, ds, hds, hkind'⟩ := exists_render_kind layout depth w
  rw [hcs, hds, List.cons_append, List.cons_append, List.cons.injEq] at h
  rw [h.1, hkind', Option.some.injEq] at hkind
  exact hkind.symm

-- What is written between brackets is told from the text behind it if each item is.
theorem remaining_inj {α : Type} (f : α → List Char) {line : List Char} (hline : Blanks line)
    {closing : Char} (hclosing : closing = ']' ∨ closing = '\x7d')
    (hopen : ∀ a, ∃ c cs, f a = c :: cs ∧ isBlank c = false ∧ c ≠ closing)
    {blanks blanks' : List Char} (hblanks : Blanks blanks) (hblanks' : Blanks blanks')
    {rest rest' : List Char} (items items' : List α)
    (hitems : ∀ a ∈ items, ∀ b cs ds, EndsNumber cs → EndsNumber ds → f a ++ cs = f b ++ ds →
      a = b ∧ cs = ds) (first : Bool)
    (h : Record.remaining line (blanks ++ closing :: rest) first (items.map f) =
      Record.remaining line (blanks' ++ closing :: rest') first (items'.map f)) :
    items = items' ∧ rest = rest' := by
  have hblank : isBlank closing = false := by rcases hclosing with rfl | rfl <;> rfl
  have hends : ∀ {blanks rest : List Char}, Blanks blanks → EndsNumber (blanks ++ closing :: rest) := by
    intro blanks rest hblanks
    refine EndsNumber.of_blanks hblanks ?_
    rcases hclosing with rfl | rfl <;> exact endsNumber_cons _ rfl (by decide) rfl
  -- a closing bracket does not stand where an item begins
  have hclosed : ∀ (blanks rest tail : List Char) (a : α) (first : Bool), Blanks blanks →
      blanks ++ closing :: rest ≠ Record.separator first ++ line ++ f a ++ tail := by
    intro blanks rest tail a first hblanks heq
    obtain ⟨c, cs, hcs, hc, hne⟩ := hopen a
    have hskip := congrArg skipBlanks heq
    rw [skipBlanks_append hblanks, skipBlanks_cons hblank, List.append_assoc, List.append_assoc] at hskip
    cases first with
    | true =>
        rw [Record.separator, if_pos rfl, List.nil_append, skipBlanks_append hline, hcs,
          List.cons_append, skipBlanks_cons hc] at hskip
        exact hne (List.cons.inj hskip).1.symm
    | false =>
        rw [Record.separator, if_neg Bool.false_ne_true, List.cons_append, skipBlanks_cons rfl] at hskip
        rcases hclosing with rfl | rfl <;> exact absurd (List.cons.inj hskip).1 (by decide)
  induction items generalizing items' first with
  | nil =>
      cases items' with
      | nil =>
          have hskip := congrArg skipBlanks h
          rw [List.map_nil, Record.remaining, Record.remaining, skipBlanks_append hblanks,
            skipBlanks_append hblanks', skipBlanks_cons hblank, skipBlanks_cons hblank] at hskip
          exact ⟨rfl, (List.cons.inj hskip).2⟩
      | cons b items' => exact absurd h (hclosed _ _ _ b first hblanks)
  | cons a items ih =>
      cases items' with
      | nil => exact absurd h.symm (hclosed _ _ _ a first hblanks')
      | cons b items' =>
          simp only [List.map_cons, Record.remaining, List.append_assoc, List.append_cancel_left_eq] at h
          obtain ⟨rfl, htail⟩ := hitems a (List.mem_cons_self ..) b _ _
            (Record.remaining_false_endsNumber line (hends hblanks) _)
            (Record.remaining_false_endsNumber line (hends hblanks') _) h
          obtain ⟨rfl, hrest⟩ := ih items' (fun a ha => hitems a (List.mem_cons_of_mem _ ha)) false htail
          exact ⟨rfl, hrest⟩

theorem renderItems_eq_map (layout : Layout) (depth : Nat) (items : List Value) :
    renderItems layout depth items = items.map (Value.render layout depth) := by
  induction items with
  | nil => rfl
  | cons item items ih => rw [renderItems, ih, List.map_cons]

theorem ne_closing_of_kindOf {c closing : Char} {kind : Kind} (h : kindOf c = some kind)
    (hclosing : closing = ']' ∨ closing = '\x7d') : isBlank c = false ∧ c ≠ closing := by
  refine ⟨isBlank_of_kindOf h, ?_⟩
  rintro rfl
  rcases hclosing with rfl | rfl <;> cases h

-- A written value tells where it ends and which value it is, by induction on its size: in a list or an
-- object each item does.
theorem Value.render_append_inj {layout : Layout} (hlayout : layout.Spaces) (v w : Value)
    (depth : Nat) (rest rest' : List Char) (hrest : EndsNumber rest) (hrest' : EndsNumber rest')
    (h : v.render layout depth ++ rest = w.render layout depth ++ rest') : v = w ∧ rest = rest' := by
  have hkind := kind_eq_of_render_append h
  match v, w, hkind with
  | .null, .null, _ => exact ⟨rfl, List.append_cancel_left h⟩
  | .boolean true, .boolean true, _ => exact ⟨rfl, List.append_cancel_left h⟩
  | .boolean false, .boolean false, _ => exact ⟨rfl, List.append_cancel_left h⟩
  | .boolean true, .boolean false, _ => cases h
  | .boolean false, .boolean true, _ => cases h
  | .integer n, .integer m, _ =>
      obtain ⟨rfl, htail⟩ := integerText_append_inj hrest hrest' h
      exact ⟨rfl, htail⟩
  | .text s, .text s', _ =>
      obtain ⟨rfl, htail⟩ := quote_append_inj h
      exact ⟨rfl, htail⟩
  | .array items, .array items', _ =>
      obtain ⟨blanks, hblanks, htext⟩ := Record.bracketed_append hlayout depth '[' ']'
        (renderItems layout (depth + 1) items) rest
      obtain ⟨blanks', hblanks', htext'⟩ := Record.bracketed_append hlayout depth '[' ']'
        (renderItems layout (depth + 1) items') rest'
      rw [Value.render, Value.render, htext, htext', List.cons.injEq, renderItems_eq_map,
        renderItems_eq_map] at h
      have hopen : ∀ a : Value, ∃ c cs, a.render layout (depth + 1) = c :: cs ∧
          isBlank c = false ∧ c ≠ ']' := by
        intro a
        obtain ⟨c, cs, hcs, hc⟩ := exists_render_kind layout (depth + 1) a
        exact ⟨c, cs, hcs, ne_closing_of_kindOf hc (.inl rfl)⟩
      obtain ⟨rfl, htail⟩ := remaining_inj _ (hlayout.line (depth + 1)) (.inl rfl) hopen hblanks
        hblanks' items items'
        (fun a ha b cs ds hcs hds heq => render_append_inj hlayout a b (depth + 1) cs ds hcs hds heq)
        true h.2
      exact ⟨rfl, htail⟩
  | .object members, .object members', _ =>
      obtain ⟨blanks, hblanks, htext⟩ := Record.bracketed_append hlayout depth '\x7b' '\x7d'
        (renderMembers layout (depth + 1) members) rest
      obtain ⟨blanks', hblanks', htext'⟩ := Record.bracketed_append hlayout depth '\x7b' '\x7d'
        (renderMembers layout (depth + 1) members') rest'
      rw [Value.render, Value.render, htext, htext', List.cons.injEq, renderMembers_eq_map,
        renderMembers_eq_map] at h
      have hopen : ∀ a : String × Value, ∃ c cs, memberText layout (depth + 1) a = c :: cs ∧
          isBlank c = false ∧ c ≠ '\x7d' := fun a => ⟨'"', _, rfl, rfl, by decide⟩
      obtain ⟨rfl, htail⟩ := remaining_inj _ (hlayout.line (depth + 1)) (.inr rfl) hopen hblanks
        hblanks' members members'
        (fun a ha b cs ds hcs hds heq => by
          simp only [memberText, List.append_assoc, List.cons_append] at heq
          obtain ⟨hname, hvalue⟩ := quote_append_inj heq
          rw [List.cons.injEq, List.append_cancel_left_eq] at hvalue
          obtain ⟨hvalue, htail⟩ :=
            render_append_inj hlayout a.2 b.2 (depth + 1) cs ds hcs hds hvalue.2
          exact ⟨Prod.ext hname hvalue, htail⟩)
        true h.2
      exact ⟨rfl, htail⟩
termination_by sizeOf v
decreasing_by
  · have hitem := List.sizeOf_lt_of_mem ha
    simp only [Value.array.sizeOf_spec]
    omega
  · have hmember := List.sizeOf_lt_of_mem ha
    have hvalue : sizeOf a = 1 + sizeOf a.1 + sizeOf a.2 := rfl
    simp only [Value.object.sizeOf_spec]
    omega

theorem Value.write_injective {layout : Layout} (hlayout : layout.Spaces) :
    Function.Injective (Value.write layout) := by
  intro v w h
  have hrender : v.render layout 0 = w.render layout 0 := String.ofList_injective h
  have hends : EndsNumber [] := by simp [EndsNumber]
  exact (Value.render_append_inj hlayout v w 0 [] [] hends hends (by rw [hrender])).1

end ParticipantTrust.Json
