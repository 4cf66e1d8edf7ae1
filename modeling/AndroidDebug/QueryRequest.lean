import AndroidDebug.PercentEncoding
import Mathlib.Algebra.Group.Nat.Defs

/-! The SQL typed into the page, on its way to the database. -/
namespace QueryRequest

open JavaText UrlDecoder PercentEncoding

/-- Letters, digits and `@*_+-./`. -/
def isUnescaped (c : ℕ) : Bool :=
  isAlphanumeric c || decide (c = 0x40 ∨ c = 0x2A ∨ c = 0x5F ∨ c = 0x2B ∨ c = 0x2D ∨ c = 0x2E ∨
    c = 0x2F)

def escapeWide (u : UInt16) : JString :=
  let digit k := hexDigit (u.toNat / 16 ^ k % 16)
  [percent, 0x75, digit 3, digit 2, digit 1, digit 0]

def escapeUnit (u : UInt16) : JString :=
  if isUnescaped u.toNat then [u]
  else if u.toNat < 256 then escapeByte (UInt8.ofNat u.toNat)
  else escapeWide u

/-- ECMAScript's `escape`, which works on code units. -/
def escape (s : JString) : JString := s.flatMap escapeUnit

inductive Answer where
  | badRequest
  | raised
  | executeQuery (dbName query : JString)
  deriving DecidableEq, Repr

variable (malformed : List UInt8 → JString)

/-- An exception while the query is decoded is caught, and the raw value goes on. -/
def HttpQueryDataHandler.handle (dbName query : Option JString) : Answer :=
  match dbName, query with
  | some dbName, some query =>
    match decode malformed dbName with
    | none => .raised
    | some dbName => .executeQuery dbName ((decode malformed query).getD query)
  | _, _ => .badRequest

def queryFunction (dbOrPath : Option JString) (query : JString) : Answer :=
  HttpQueryDataHandler.handle malformed dbOrPath (some (escape query))

def replacement : UInt16 := 0xFFFD

/-- The text is ASCII without a plus sign. -/
def Survives (query : JString) : Prop := ∀ u ∈ query, u.toNat < 0x80 ∧ u ≠ plus

/-- The database is named, and its name can be decoded. -/
def Named (dbOrPath : Option JString) : Prop :=
  ∃ raw ∈ dbOrPath, (decode malformed raw).isSome

variable {malformed}

theorem isUnescaped_ascii {c : ℕ} (h : isUnescaped c = true) : c < 0x80 ∧ c ≠ percent.toNat := by
  simp only [isUnescaped, isAlphanumeric, Bool.or_eq_true, decide_eq_true_eq] at h
  have hpercent : percent.toNat = 0x25 := rfl
  omega

/-! How long the text of some bytes is. -/

theorem continuation_takes {bs rest : List UInt8} {x : ℕ}
    (h : continuation bs = some (x, rest)) : bs.length = rest.length + 1 ∧ x < 64 := by
  cases bs with
  | nil => cases h
  | cons b bs =>
    rw [continuation] at h
    split_ifs at h
    obtain ⟨rfl, rfl⟩ := Prod.mk.inj (Option.some.inj h)
    exact ⟨rfl, by omega⟩

/-- More than one byte gives fewer units. -/
theorem decodeScalar_length {b : UInt8} {bs rest : List UInt8} {c : ℕ}
    (h : decodeScalar (b :: bs) = some (c, rest)) :
    b.toNat < 0x80 ∧ rest = bs ∧ (unitsOfScalar c).length = 1 ∨
      (unitsOfScalar c).length + rest.length < bs.length + 1 := by
  have htwo : (unitsOfScalar c).length ≤ 2 := by
    unfold unitsOfScalar
    split_ifs <;> simp
  have hone : c < 0x10000 → (unitsOfScalar c).length = 1 := by
    intro hlt
    rw [unitsOfScalar, if_pos hlt]
    rfl
  rw [decodeScalar] at h
  split_ifs at h with h1 h2 h3 h4 h5
  · obtain ⟨rfl, rfl⟩ := Prod.mk.inj (Option.some.inj h)
    exact Or.inl ⟨h1, rfl, hone (by omega)⟩
  · obtain ⟨⟨x, r₁⟩, hx, h⟩ := Option.bind_eq_some_iff.mp h
    dsimp only at h
    split_ifs at h
    obtain ⟨rfl, rfl⟩ := Prod.mk.inj (Option.some.inj h)
    have hlength := continuation_takes hx
    omega
  · obtain ⟨⟨x, r₁⟩, hx, h⟩ := Option.bind_eq_some_iff.mp h
    obtain ⟨⟨y, r₂⟩, hy, h⟩ := Option.bind_eq_some_iff.mp h
    dsimp only at h
    split_ifs at h
    obtain ⟨rfl, rfl⟩ := Prod.mk.inj (Option.some.inj h)
    have hlength := continuation_takes hx
    have hlength' := continuation_takes hy
    omega
  · obtain ⟨⟨x, r₁⟩, hx, h⟩ := Option.bind_eq_some_iff.mp h
    obtain ⟨⟨y, r₂⟩, hy, h⟩ := Option.bind_eq_some_iff.mp h
    obtain ⟨⟨z, r₃⟩, hz, h⟩ := Option.bind_eq_some_iff.mp h
    dsimp only at h
    split_ifs at h
    obtain ⟨rfl, rfl⟩ := Prod.mk.inj (Option.some.inj h)
    have hlength := continuation_takes hx
    have hlength' := continuation_takes hy
    have hlength'' := continuation_takes hz
    omega

theorem decodeAll_length {n : ℕ} {bs : List UInt8} {cs : List ℕ}
    (h : decodeAll n bs = some cs) : (units cs).length ≤ bs.length ∧
      ((units cs).length = bs.length → ∀ b ∈ bs, b.toNat < 0x80) := by
  induction n generalizing bs cs with
  | zero =>
    cases bs with
    | nil =>
      cases h
      simp [units]
    | cons b bs => cases h
  | succ n ih =>
    cases bs with
    | nil =>
      cases h
      simp [units]
    | cons b bs =>
      obtain ⟨⟨c, rest⟩, hc, h⟩ := Option.bind_eq_some_iff.mp h
      obtain ⟨ds, hds, h⟩ := Option.bind_eq_some_iff.mp h
      obtain rfl := Option.some.inj h
      obtain ⟨hle, hascii⟩ := ih hds
      have hunits : (units (c :: ds)).length = (unitsOfScalar c).length + (units ds).length := by
        simp [units]
      rw [hunits, List.length_cons]
      rcases decodeScalar_length hc with ⟨hb, rfl, hone⟩ | hless
      · refine ⟨by omega, fun heq => ?_⟩
        intro d hd
        rcases List.mem_cons.mp hd with rfl | hd
        · exact hb
        · exact hascii (by omega) d hd
      · exact ⟨by omega, fun heq => by omega⟩

/-- What the decoder does to malformed bytes shows in its text. -/
def Marks (malformed : List UInt8 → JString) : Prop :=
  ∀ bs, JavaText.decode bs = none → replacement ∈ malformed bs

theorem newString_length (hmarks : Marks malformed) {bs : List UInt8}
    (h : replacement ∉ newString malformed bs) : (newString malformed bs).length ≤ bs.length ∧
      ((newString malformed bs).length = bs.length → ∀ b ∈ bs, b.toNat < 0x80) := by
  unfold newString at h ⊢
  split
  · rename_i cs hcs
    exact decodeAll_length hcs
  · rename_i hnone
    rw [hnone] at h
    exact absurd (hmarks bs hnone) h

/-! What the decoder makes of an escaped text. -/

theorem escape_cons (u : UInt16) (s : JString) : escape (u :: s) = escapeUnit u ++ escape s := by
  simp [escape]

theorem unit_ne_percent {u : UInt16} (h : isUnescaped u.toNat = true) : u ≠ percent := by
  rintro rfl
  exact absurd h (by decide)

/-- The escape of a wide character stops the decoder. -/
theorem decodeFrom_wide {s : JString} (h : ∃ u ∈ s, 256 ≤ u.toNat) (bytes : List UInt8) :
    decodeFrom malformed bytes (escape s) = none := by
  induction s generalizing bytes with
  | nil => simp at h
  | cons u s ih =>
    rw [escape_cons, escapeUnit]
    split_ifs with hkept hnarrow
    · have hlt := (isUnescaped_ascii hkept).1
      have hrest : ∃ v ∈ s, 256 ≤ v.toNat := by
        obtain ⟨v, hv, hwide⟩ := h
        rcases List.mem_cons.mp hv with rfl | hv
        · omega
        · exact ⟨v, hv, hwide⟩
      rw [List.singleton_append, decodeFrom_kept _ _ (unit_ne_percent hkept), ih hrest]
      rfl
    · have hrest : ∃ v ∈ s, 256 ≤ v.toNat := by
        obtain ⟨v, hv, hwide⟩ := h
        rcases List.mem_cons.mp hv with rfl | hv
        · omega
        · exact ⟨v, hv, hwide⟩
      rw [decodeFrom_escapeByte, ih hrest]
    · rfl

theorem decodeFrom_narrow_isSome {s : JString} (hnarrow : ∀ u ∈ s, u.toNat < 256)
    (bytes : List UInt8) : (decodeFrom malformed bytes (escape s)).isSome := by
  induction s generalizing bytes with
  | nil => rfl
  | cons u s ih =>
    have hrest : ∀ v ∈ s, v.toNat < 256 := fun v hv => hnarrow v (List.mem_cons_of_mem u hv)
    rw [escape_cons, escapeUnit, if_pos (hnarrow u List.mem_cons_self)]
    split_ifs with hkept
    · rw [List.singleton_append, decodeFrom_kept _ _ (unit_ne_percent hkept), Option.isSome_map]
      exact ih hrest []
    · rw [decodeFrom_escapeByte]
      exact ih hrest _

/-- A text of narrow characters comes back no longer, and shorter if one is not ASCII. -/
theorem decodeFrom_narrow (hmarks : Marks malformed) {s t : JString}
    (hnarrow : ∀ u ∈ s, u.toNat < 256) {bytes : List UInt8}
    (h : decodeFrom malformed bytes (escape s) = some t) (hclean : replacement ∉ t) :
    t.length ≤ bytes.length + s.length ∧ (t.length = bytes.length + s.length →
      (∀ b ∈ bytes, b.toNat < 0x80) ∧ ∀ u ∈ s, u.toNat < 0x80) := by
  induction s generalizing bytes t with
  | nil =>
    obtain rfl : newString malformed bytes = t := Option.some.inj h
    simpa using newString_length hmarks hclean
  | cons u s ih =>
    have hrest : ∀ v ∈ s, v.toNat < 256 := fun v hv => hnarrow v (List.mem_cons_of_mem u hv)
    have hu := hnarrow u List.mem_cons_self
    rw [escape_cons, escapeUnit] at h
    split_ifs at h with hkept
    · rw [List.singleton_append, decodeFrom_kept _ _ (unit_ne_percent hkept)] at h
      obtain ⟨text, htext, rfl⟩ := Option.map_eq_some_iff.mp h
      simp only [List.mem_append, List.mem_cons, not_or] at hclean
      obtain ⟨hle, hascii⟩ := ih hrest htext hclean.2.2
      obtain ⟨hle', hascii'⟩ := newString_length hmarks hclean.1
      have hlt := (isUnescaped_ascii hkept).1
      simp only [List.length_append, List.length_cons, List.length_nil] at hle hascii ⊢
      refine ⟨by omega, fun heq => ⟨hascii' (by omega), ?_⟩⟩
      intro v hv
      rcases List.mem_cons.mp hv with rfl | hv
      · exact hlt
      · exact (hascii (by omega)).2 v hv
    · rw [decodeFrom_escapeByte] at h
      obtain ⟨hle, hascii⟩ := ih hrest h hclean
      simp only [List.length_append, List.length_cons, List.length_nil] at hle hascii ⊢
      refine ⟨by omega, fun heq => ?_⟩
      obtain ⟨hbytes, hs⟩ := hascii (by omega)
      refine ⟨fun b hb => hbytes b (List.mem_append_left _ hb), ?_⟩
      intro v hv
      rcases List.mem_cons.mp hv with rfl | hv
      · have hlast := hbytes (UInt8.ofNat v.toNat) (by simp)
        rw [UInt8.toNat_ofNat'] at hlast
        omega
      · exact hs v hv

theorem escape_ascii {s : JString} (h : ∀ u ∈ s, u.toNat < 0x80) :
    escape s = encodeWith isUnescaped (s.map UInt16.toNat) := by
  rw [escape, encodeWith, List.flatMap_map]
  apply List.flatMap_congr
  intro u hu
  have hlt := h u hu
  rw [escapeUnit]
  split_ifs with hkept hnarrow
  · rw [UInt16.ofNat_toNat]
  · simp [encodeScalar, hlt, escapeBytes]
  · omega

theorem decode_escape_ascii {s : JString} (h : ∀ u ∈ s, u.toNat < 0x80) :
    UrlDecoder.decode malformed (escape s) =
      some (s.map fun u => if u = plus then space else u) := by
  have hscalar : ∀ c ∈ s.map UInt16.toNat, IsScalar c := by
    intro c hc
    obtain ⟨u, hu, rfl⟩ := List.mem_map.mp hc
    exact Or.inl (by have := h u hu; omega)
  have hread := @decodeFrom_encodeWith malformed isUnescaped (s.map UInt16.toNat) []
    (fun c _ hc => isUnescaped_ascii hc) hscalar (by simp)
  rw [UrlDecoder.decode, escape_ascii h]
  refine hread.trans (congrArg some ?_)
  rw [List.flatMap_map]
  show [] ++ _ = _
  rw [List.nil_append, List.map_eq_flatMap]
  apply List.flatMap_congr
  intro u hu
  have hlt := h u hu
  rw [readBack]
  by_cases hp : u = plus
  · subst hp
    rfl
  · have hne : u.toNat ≠ plus.toNat := fun heq => hp (UInt16.toNat_inj.mp heq)
    simp [hne, hp, unitsOfScalar, show u.toNat < 0x10000 by omega]

theorem length_escapeUnit (u : UInt16) :
    1 ≤ (escapeUnit u).length ∧ (256 ≤ u.toNat → 1 < (escapeUnit u).length) := by
  rw [escapeUnit]
  split_ifs with hkept hnarrow
  · have := (isUnescaped_ascii hkept).1
    exact ⟨le_refl 1, fun h => by omega⟩
  · simp [escapeByte]
  · simp [escapeWide]

theorem length_escape (s : JString) : s.length ≤ (escape s).length ∧
    ((∃ u ∈ s, 256 ≤ u.toNat) → s.length < (escape s).length) := by
  induction s with
  | nil => simp [escape]
  | cons u s ih =>
    obtain ⟨hle, hwide⟩ := length_escapeUnit u
    rw [escape_cons, List.length_append, List.length_cons]
    refine ⟨by omega, ?_⟩
    rintro ⟨v, hv, h⟩
    rcases List.mem_cons.mp hv with rfl | hv
    · have := hwide h
      omega
    · have := ih.2 ⟨v, hv, h⟩
      omega

theorem map_plus_eq_iff (s : JString) :
    (s.map fun u => if u = plus then space else u) = s ↔ plus ∉ s := by
  induction s with
  | nil => simp
  | cons u s ih =>
    rw [List.map_cons, List.cons.injEq, ih, List.mem_cons, not_or]
    by_cases hu : u = plus
    · subst hu
      simp [show space ≠ plus by decide]
    · simp [hu, Ne.symm hu]

/-- The value that the database is asked for. -/
theorem decoded_query_iff (hmarks : Marks malformed) (q : JString) :
    (decode malformed (escape q)).getD (escape q) = q ↔ Survives q := by
  by_cases hwide : ∃ u ∈ q, 256 ≤ u.toNat
  · have hnone : decode malformed (escape q) = none := decodeFrom_wide hwide []
    rw [hnone, Option.getD_none]
    constructor
    · intro heq
      have hlonger := (length_escape q).2 hwide
      rw [heq] at hlonger
      omega
    · intro h
      obtain ⟨u, hu, hlt⟩ := hwide
      have := (h u hu).1
      omega
  · push Not at hwide
    constructor
    · intro heq
      have hascii : ∀ u ∈ q, u.toNat < 0x80 := by
        obtain ⟨t, ht⟩ := Option.isSome_iff_exists.mp (decodeFrom_narrow_isSome hwide [])
        have hdecoded : UrlDecoder.decode malformed (escape q) = some t := ht
        rw [hdecoded, Option.getD_some] at heq
        subst heq
        have hclean : replacement ∉ t := fun hmem => absurd (hwide _ hmem) (by decide)
        exact ((decodeFrom_narrow hmarks hwide ht hclean).2 (by simp)).2
      rw [decode_escape_ascii hascii, Option.getD_some, map_plus_eq_iff] at heq
      exact fun u hu => ⟨hascii u hu, fun hp => heq (hp ▸ hu)⟩
    · intro h
      rw [decode_escape_ascii fun u hu => (h u hu).1, Option.getD_some, map_plus_eq_iff]
      exact fun hp => (h plus hp).2 rfl

/-- The SQL arrives as it was typed exactly when it is ASCII without plus signs. -/
theorem query_unchanged_iff (hmarks : Marks malformed) (dbOrPath : Option JString)
    (q : JString) :
    (∃ dbName, queryFunction malformed dbOrPath q = .executeQuery dbName q) ↔
      Named malformed dbOrPath ∧ Survives q := by
  rw [← decoded_query_iff hmarks q]
  unfold queryFunction HttpQueryDataHandler.handle Named
  cases dbOrPath with
  | none => simp
  | some raw => cases hname : UrlDecoder.decode malformed raw <;> simp [hname]

/-- A runtime that puts one replacement character. -/
def oneMark : List UInt8 → JString := fun _ => [replacement]

theorem query_unchanged_iff_update :
    (∃ dbName, queryFunction oneMark (some (ofString "app.db"))
      (ofString "UPDATE t SET a='50% off' WHERE b<>\"x\"") =
        .executeQuery dbName (ofString "UPDATE t SET a='50% off' WHERE b<>\"x\"")) ↔
      Named oneMark (some (ofString "app.db")) ∧
        Survives (ofString "UPDATE t SET a='50% off' WHERE b<>\"x\"") :=
  query_unchanged_iff (fun _ _ => List.mem_singleton.mpr rfl) _ _

/-- A sum arrives without its plus sign. -/
theorem plus_sign_lost : ¬∀ q, WellFormed q →
    ∃ dbName, queryFunction oneMark (some (ofString "app.db")) q = .executeQuery dbName q := by
  intro h
  obtain ⟨dbName, hpassed⟩ := h (ofString "SELECT 1+1") (by decide +kernel)
  have harrives : queryFunction oneMark (some (ofString "app.db")) (ofString "SELECT 1+1") =
      .executeQuery (ofString "app.db") (ofString "SELECT 1 1") := by decide +kernel
  rw [harrives] at hpassed
  have hquery := (Answer.executeQuery.inj hpassed).2
  revert hquery
  decide +kernel

/-- A character past Latin-1 makes the decoder fail, and the escape itself is run as SQL. -/
example : queryFunction oneMark (some (ofString "app.db")) (ofString "SELECT '中'") =
    .executeQuery (ofString "app.db") (ofString "SELECT%20%27%u4E2D%27") := by decide +kernel

end QueryRequest
