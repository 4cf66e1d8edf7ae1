import AndroidDebug.JavaText

/-! Where UTF-8 text may be cut: between characters and nowhere else. -/
namespace Utf8Split

open JavaText

def IsText (bs : List UInt8) : Prop := ∃ cs, (∀ c ∈ cs, IsScalar c) ∧ bs = encode cs

def isContinuation (b : UInt8) : Bool := 0x80 ≤ b.toNat && b.toNat < 0xC0

def startsInside : List UInt8 → Bool
  | [] => false
  | b :: _ => isContinuation b

/-! What the strict decoder accepts is text. -/

theorem byte_eq {b : UInt8} {n : ℕ} (h : n = b.toNat) : UInt8.ofNat n = b := by
  rw [h, UInt8.ofNat_toNat]

theorem continuation_sound {bs rest : List UInt8} {x : ℕ}
    (h : continuation bs = some (x, rest)) :
    x < 64 ∧ bs = UInt8.ofNat (0x80 + x) :: rest := by
  cases bs with
  | nil => cases h
  | cons b bs =>
    simp only [continuation] at h
    split at h
    · rename_i hb
      simp only [Option.some.injEq, Prod.mk.injEq] at h
      obtain ⟨hx, rfl⟩ := h
      exact ⟨by omega, by rw [byte_eq (b := b) (by omega)]⟩
    · cases h

theorem bind_continuation_sound {β : Type} {bs : List UInt8} {f : ℕ × List UInt8 → Option β}
    {v : β} (h : (continuation bs).bind f = some v) :
    ∃ x rest, x < 64 ∧ bs = UInt8.ofNat (0x80 + x) :: rest ∧ f (x, rest) = some v := by
  obtain ⟨⟨x, rest⟩, hx, hf⟩ := Option.bind_eq_some_iff.mp h
  obtain ⟨hlt, hbs⟩ := continuation_sound hx
  exact ⟨x, rest, hlt, hbs, hf⟩

theorem decodeScalar_sound {bs rest : List UInt8} {c : ℕ}
    (h : decodeScalar bs = some (c, rest)) : IsScalar c ∧ bs = encodeScalar c ++ rest := by
  cases bs with
  | nil => cases h
  | cons a bs =>
    simp only [decodeScalar, Option.bind_eq_bind] at h
    split_ifs at h with h1 h2 h3 h4 h5
    · simp only [Option.some.injEq, Prod.mk.injEq] at h
      obtain ⟨rfl, rfl⟩ := h
      exact ⟨Or.inl (by omega), by simp [encodeScalar, h1]⟩
    · obtain ⟨x, r, hx, rfl, hc⟩ := bind_continuation_sound h
      simp only [Option.ite_none_right_eq_some, Option.some.injEq, Prod.mk.injEq] at hc
      obtain ⟨hlo, hc, rfl⟩ := hc
      have ha : UInt8.ofNat (0xC0 + c / 64) = a := byte_eq (by omega)
      have hx' : c % 64 = x := by omega
      refine ⟨Or.inl (by omega), ?_⟩
      rw [encodeScalar, if_neg (by omega), if_pos (by omega), ha, hx']
      rfl
    · obtain ⟨x, r, hx, rfl, hrest⟩ := bind_continuation_sound h
      obtain ⟨y, r, hy, rfl, hc⟩ := bind_continuation_sound hrest
      simp only [Option.ite_none_right_eq_some, Option.some.injEq, Prod.mk.injEq] at hc
      obtain ⟨⟨hlo, hscalar⟩, hc, rfl⟩ := hc
      have ha : UInt8.ofNat (0xE0 + c / 4096) = a := byte_eq (by omega)
      have hx' : c / 64 % 64 = x := by omega
      have hy' : c % 64 = y := by omega
      refine ⟨hc ▸ hscalar, ?_⟩
      rw [encodeScalar, if_neg (by omega), if_neg (by omega), if_pos (by omega), ha, hx', hy']
      rfl
    · obtain ⟨x, r, hx, rfl, hrest⟩ := bind_continuation_sound h
      obtain ⟨y, r, hy, rfl, hrest'⟩ := bind_continuation_sound hrest
      obtain ⟨z, r, hz, rfl, hc⟩ := bind_continuation_sound hrest'
      simp only [Option.ite_none_right_eq_some, Option.some.injEq, Prod.mk.injEq] at hc
      obtain ⟨⟨hlo, hscalar⟩, hc, rfl⟩ := hc
      have ha : UInt8.ofNat (0xF0 + c / 262144) = a := byte_eq (by omega)
      have hx' : c / 4096 % 64 = x := by omega
      have hy' : c / 64 % 64 = y := by omega
      have hz' : c % 64 = z := by omega
      refine ⟨hc ▸ hscalar, ?_⟩
      rw [encodeScalar, if_neg (by omega), if_neg (by omega), if_neg (by omega), ha, hx', hy',
        hz']
      rfl

theorem decodeAll_sound {n : ℕ} {bs : List UInt8} {cs : List ℕ}
    (h : decodeAll n bs = some cs) : (∀ c ∈ cs, IsScalar c) ∧ bs = encode cs := by
  induction n generalizing bs cs with
  | zero =>
    cases bs with
    | nil =>
      cases h
      simp [encode]
    | cons b bs => cases h
  | succ n ih =>
    cases bs with
    | nil =>
      cases h
      simp [encode]
    | cons b bs =>
      simp only [decodeAll, Option.bind_eq_bind] at h
      obtain ⟨⟨c, rest⟩, hc, htail⟩ := Option.bind_eq_some_iff.mp h
      obtain ⟨ds, hds, hcs⟩ := Option.bind_eq_some_iff.mp htail
      cases hcs
      obtain ⟨hscalar, hbs⟩ := decodeScalar_sound hc
      obtain ⟨hall, hrest⟩ : (∀ d ∈ ds, IsScalar d) ∧ rest = encode ds := ih hds
      refine ⟨?_, ?_⟩
      · intro d hd
        rcases List.mem_cons.mp hd with rfl | hd
        · exact hscalar
        · exact hall d hd
      · rw [hbs, hrest]
        rfl

theorem isText_iff_decode {bs : List UInt8} : IsText bs ↔ (decode bs).isSome = true := by
  constructor
  · rintro ⟨cs, hcs, rfl⟩
    rw [decode_encode hcs]
    rfl
  · intro h
    obtain ⟨cs, hcs⟩ := Option.isSome_iff_exists.mp h
    exact ⟨cs, decodeAll_sound hcs⟩

instance (bs : List UInt8) : Decidable (IsText bs) := decidable_of_iff _ isText_iff_decode.symm

/-! Cuts. -/

theorem isText_nil : IsText [] := ⟨[], by simp, rfl⟩

theorem isText_cons {c : ℕ} {bs : List UInt8} (hc : IsScalar c) (h : IsText bs) :
    IsText (encodeScalar c ++ bs) := by
  obtain ⟨cs, hcs, rfl⟩ := h
  refine ⟨c :: cs, ?_, rfl⟩
  intro d hd
  rcases List.mem_cons.mp hd with rfl | hd
  · exact hc
  · exact hcs d hd

/-- A leading byte, then continuation bytes only. -/
theorem encodeScalar_shape {c : ℕ} (hc : IsScalar c) :
    ∃ b tail, encodeScalar c = b :: tail ∧ isContinuation b = false ∧
      ∀ t ∈ tail, isContinuation t = true := by
  have htail : ∀ k, isContinuation (UInt8.ofNat (0x80 + k % 64)) = true := by
    intro k
    have hk : (UInt8.ofNat (0x80 + k % 64)).toNat = 0x80 + k % 64 := by
      rw [UInt8.toNat_ofNat']
      omega
    simp only [isContinuation, hk, Bool.and_eq_true, decide_eq_true_eq]
    omega
  have hlead : ∀ n, n < 256 → (n < 0x80 ∨ 0xC0 ≤ n) → isContinuation (UInt8.ofNat n) = false := by
    intro n hn hout
    have hb : (UInt8.ofNat n).toNat = n := by
      rw [UInt8.toNat_ofNat']
      omega
    simp only [isContinuation, hb, Bool.and_eq_false_iff, decide_eq_false_iff_not]
    omega
  have hlt : c < 0x110000 := by
    unfold IsScalar at hc
    omega
  unfold encodeScalar
  split_ifs with h1 h2 h3
  · exact ⟨_, _, rfl, hlead _ (by omega) (by omega), by simp⟩
  · refine ⟨_, _, rfl, hlead _ (by omega) (by omega), ?_⟩
    simp only [List.forall_mem_singleton]
    exact htail _
  · refine ⟨_, _, rfl, hlead _ (by omega) (by omega), ?_⟩
    simp only [List.forall_mem_cons, List.not_mem_nil, IsEmpty.forall_iff, implies_true, and_true]
    exact ⟨htail _, htail _⟩
  · refine ⟨_, _, rfl, hlead _ (by omega) (by omega), ?_⟩
    simp only [List.forall_mem_cons, List.not_mem_nil, IsEmpty.forall_iff, implies_true, and_true]
    exact ⟨htail _, htail _, htail _⟩

theorem IsText.not_inside {bs : List UInt8} (h : IsText bs) : startsInside bs = false := by
  obtain ⟨cs, hcs, rfl⟩ := h
  cases cs with
  | nil => rfl
  | cons c cs =>
    obtain ⟨b, tail, hb, hlead, -⟩ := encodeScalar_shape (hcs c List.mem_cons_self)
    simp only [encode, List.flatMap_cons, hb, List.cons_append]
    exact hlead

/-- Text cut before a byte that starts a character gives two texts. -/
theorem IsText.cut {a b : List UInt8} (h : IsText (a ++ b)) (hb : startsInside b = false) :
    IsText a ∧ IsText b := by
  obtain ⟨cs, hcs, hab⟩ := h
  induction cs generalizing a with
  | nil =>
    obtain ⟨rfl, rfl⟩ := List.append_eq_nil_iff.mp hab
    exact ⟨isText_nil, isText_nil⟩
  | cons c cs ih =>
    have hc := hcs c List.mem_cons_self
    have hrest : ∀ d ∈ cs, IsScalar d := fun d hd => hcs d (List.mem_cons_of_mem c hd)
    have hab' : a ++ b = encodeScalar c ++ encode cs := hab
    rcases List.append_eq_append_iff.mp hab' with ⟨t, hsplit, hb'⟩ | ⟨t, ha, htail⟩
    · cases t with
      | nil =>
        rw [List.append_nil] at hsplit
        rw [List.nil_append] at hb'
        exact ⟨hsplit ▸ ⟨[c], by simpa using hc, by simp [encode]⟩, ⟨cs, hrest, hb'⟩⟩
      | cons x t =>
        obtain ⟨lead, tail, hlead, -, hcont⟩ := encodeScalar_shape hc
        cases a with
        | nil => exact ⟨isText_nil, ⟨c :: cs, hcs, hab⟩⟩
        | cons y a =>
          -- the cut falls inside the character, so the second part starts inside it
          rw [hlead, List.cons_append] at hsplit
          have hx : x ∈ tail := by
            rw [(List.cons.inj hsplit).2]
            simp
          rw [hb', List.cons_append] at hb
          exact absurd hb (by simp [startsInside, hcont x hx])
    · obtain ⟨ht, hbtext⟩ := ih hrest htail.symm
      exact ⟨ha ▸ isText_cons hc ht, hbtext⟩

theorem startsInside_flatten {chunks : List (List UInt8)}
    (h : ∀ c ∈ chunks, startsInside c = false) : startsInside chunks.flatten = false := by
  induction chunks with
  | nil => rfl
  | cons c chunks ih =>
    cases c with
    | nil => exact ih fun d hd => h d (List.mem_cons_of_mem _ hd)
    | cons b c => exact h (b :: c) List.mem_cons_self

/-- The pieces of a text are texts exactly when none of them starts inside a character. -/
theorem IsText.pieces_iff {chunks : List (List UInt8)} (h : IsText chunks.flatten) :
    (∀ c ∈ chunks, IsText c) ↔ ∀ c ∈ chunks, startsInside c = false := by
  constructor
  · exact fun hall c hc => (hall c hc).not_inside
  · intro hall
    induction chunks with
    | nil => simp
    | cons c chunks ih =>
      have hrest : ∀ d ∈ chunks, startsInside d = false :=
        fun d hd => hall d (List.mem_cons_of_mem c hd)
      obtain ⟨hc, ht⟩ := IsText.cut h (startsInside_flatten hrest)
      intro d hd
      rcases List.mem_cons.mp hd with rfl | hd
      · exact hc
      · exact ih ht hrest d hd

end Utf8Split
