import AndroidDebug.CMemory
import AndroidDebug.WebSocketFrames

/-! The inner loop of TermWebSocket_run over its array: every access is checked, the size is an
int, and the reads are given one by one. -/
namespace ReceiveBuffer

open CMemory CheckedFold
open WebSocketFrames (BUFFER Delivery FrameHead Socket)

/-- A positive result of `read(conn, payload_data, 1024)`. -/
structure Read where
  bytes : List UInt8
  positive : 0 < bytes.length
  fits : bytes.length ≤ BUFFER

/-- `*(data + i) ^= *(mask + (i % 4))` -/
def unmaskAt (mask data : Buffer) (i : ℕ) : Except Fault Buffer := do
  let m ← load mask (i % 4 : ℕ)
  let c ← load data i
  store data i (c ^^^ m)

def umask (data : Buffer) (len : Int32) (mask : Buffer) : Except Fault Buffer :=
  (List.range len.toInt.toNat).foldlM (unmaskAt mask) data

/-- The size that umask is called with, whether another round follows, and what onReceiveData
gets. -/
structure Round where
  size : Int32
  continues : Bool
  data : List UInt8
  deriving DecidableEq, Repr

/-- Without another read the connection is at its end. The condition compares the int as an
unsigned long long. -/
def receive (payload_length : UInt64) (masking_key : Buffer) :
    List Read → Buffer → Int32 → Except Fault (List Round)
  | [], _, _ => .ok []
  | r :: reads, payload_data, size => do
    let payload_data ← memcpy payload_data 0 r.bytes
    let size := size + Int32.ofNat r.bytes.length
    let payload_data ← umask payload_data size masking_key
    let continues : Bool := UInt64.ofInt size.toInt < payload_length
    let round : Round := ⟨size, continues, payload_data.take r.bytes.length⟩
    if continues then
      let rounds ← receive payload_length masking_key reads payload_data size
      return round :: rounds
    else return [round]

def total (reads : List Read) : ℕ := (reads.map fun r => r.bytes.length).sum

/-- No access leaves the array, the size is the number of bytes read, and the loop goes on as
long as that is less than the payload length. -/
def Safe (payload_length : UInt64) (masking_key : Buffer) (reads : List Read) : Prop :=
  ∃ rounds, receive payload_length masking_key reads (zeros BUFFER) 0 = .ok rounds ∧
    ∀ n round, rounds[n]? = some round →
      round.size.toInt = (total (reads.take (n + 1)) : ℤ) ∧
        (round.continues = true ↔ total (reads.take (n + 1)) < payload_length.toNat)

/-- The reads up to the one that completes the payload, after `size` bytes of it. -/
def needed (payload_length : ℕ) : ℕ → List Read → List Read
  | _, [] => []
  | size, r :: reads =>
    if size + r.bytes.length < payload_length then
      r :: needed payload_length (size + r.bytes.length) reads
    else [r]

/-! What umask does, and when it stays in the array. -/

section Unmasking

variable {key d : Buffer} {n i : ℕ}

@[simp] theorem length_umask (d : Buffer) (n : ℕ) (key : Buffer) :
    (WebSocketFrames.umask d n key).length = d.length := by
  simp [WebSocketFrames.umask]

theorem unmaskAt_next (hkey : key.length = 4) (hn : n < d.length) :
    unmaskAt key (WebSocketFrames.umask d n key) n =
      .ok (WebSocketFrames.umask d (n + 1) key) := by
  have hmask : n % 4 < key.length := by omega
  have hlt : n < (WebSocketFrames.umask d n key).length := by rwa [length_umask]
  rw [unmaskAt, load_lt hmask, ok_bind, load_lt hlt, ok_bind, store_fits hlt]
  congr 1
  refine List.ext_getElem (by simp) fun i hi hi' => ?_
  rw [List.getElem_set]
  split_ifs with hni
  · subst hni
    simp [WebSocketFrames.umask, hmask]
  · have hiff : i < n ↔ i < n + 1 := by omega
    simp [WebSocketFrames.umask, hiff]

theorem umask_fits (hkey : key.length = 4) (hn : n ≤ d.length) :
    (List.range n).foldlM (unmaskAt key) d = .ok (WebSocketFrames.umask d n key) := by
  induction n with
  | zero =>
    have hnone : WebSocketFrames.umask d 0 key = d :=
      List.ext_getElem (by simp) fun i _ _ => by simp [WebSocketFrames.umask]
    rw [hnone]
    rfl
  | succ n ih =>
    rw [List.range_succ, List.foldlM_append, ih (by omega), ok_bind, List.foldlM_cons,
      unmaskAt_next hkey (by omega)]
    rfl

theorem umask_leaves (hkey : key.length = 4) (hn : d.length < n) :
    (List.range n).foldlM (unmaskAt key) d = .error .outOfBounds := by
  induction n, Nat.succ_le_of_lt hn using Nat.le_induction with
  | base =>
    have hmask : d.length % 4 < key.length := by omega
    rw [List.range_succ, List.foldlM_append, umask_fits hkey (Nat.le_refl _), ok_bind,
      List.foldlM_cons, unmaskAt, load_lt hmask, ok_bind, load_ge (by rw [length_umask])]
    rfl
  | succ n hle ih =>
    rw [List.range_succ, List.foldlM_append, ih (Nat.lt_of_succ_le hle)]
    rfl

end Unmasking

section Rounds

variable {payload_length : UInt64} {key d : Buffer} {size : Int32} {k : ℕ} {r : Read}
  {reads : List Read}

theorem size_add (hsize : size.toInt = (k : ℤ)) (hk : k ≤ BUFFER) (r : Read) :
    (size + Int32.ofNat r.bytes.length).toInt = ((k + r.bytes.length : ℕ) : ℤ) := by
  have hfits := r.fits
  simp only [BUFFER] at hk hfits
  rw [Int32.toInt_add, hsize, Int32.toInt_ofNat_of_lt (by omega)]
  rw [Int.bmod_eq_of_le_mul_two] <;> omega

theorem condition_iff (hsize : size.toInt = (k : ℤ)) :
    UInt64.ofInt size.toInt < payload_length ↔ k < payload_length.toNat := by
  have hlt := size.toInt_lt
  have hk : (size.toInt % 2 ^ 64).toNat = k := by omega
  rw [UInt64.lt_iff_toNat_lt, UInt64.ofInt, hk, UInt64.toNat_ofNat',
    Nat.mod_eq_of_lt (by omega)]

def unmasked (key d : Buffer) (k : ℕ) (r : Read) : Buffer :=
  WebSocketFrames.umask (r.bytes ++ d.drop r.bytes.length) (k + r.bytes.length) key

/-- A round up to umask: the array is filled and the bytes are counted. -/
theorem receive_cons (hd : d.length = BUFFER) (hsize : size.toInt = (k : ℤ)) (hk : k ≤ BUFFER) :
    receive payload_length key (r :: reads) d size =
      (List.range (k + r.bytes.length)).foldlM (unmaskAt key)
        (r.bytes ++ d.drop r.bytes.length) >>= fun payload_data =>
          if k + r.bytes.length < payload_length.toNat then
            (receive payload_length key reads payload_data
              (size + Int32.ofNat r.bytes.length)).map
                (⟨size + Int32.ofNat r.bytes.length, true, payload_data.take r.bytes.length⟩ :: ·)
          else .ok [⟨size + Int32.ofNat r.bytes.length, false,
            payload_data.take r.bytes.length⟩] := by
  have hadd := size_add hsize hk r
  have hlen : (size + Int32.ofNat r.bytes.length).toInt.toNat = k + r.bytes.length := by
    rw [hadd, Int.toNat_natCast]
  rw [receive, memcpy_start (by rw [hd]; exact r.fits), ok_bind]
  simp only [umask, hlen, condition_iff hadd, decide_eq_true_eq]
  congr 1
  funext payload_data
  split_ifs with hmore
  · simp only [hmore, decide_true]
    cases receive payload_length key reads payload_data (size + Int32.ofNat r.bytes.length) <;> rfl
  · simp only [hmore, decide_false]
    rfl

theorem length_filled (hd : d.length = BUFFER) (r : Read) :
    (r.bytes ++ d.drop r.bytes.length).length = BUFFER := by
  have := r.fits
  rw [List.length_append, List.length_drop, hd]
  omega

theorem receive_fits (hkey : key.length = 4) (hd : d.length = BUFFER)
    (hsize : size.toInt = (k : ℤ)) (h : k + r.bytes.length ≤ BUFFER) :
    receive payload_length key (r :: reads) d size =
      if k + r.bytes.length < payload_length.toNat then
        (receive payload_length key reads (unmasked key d k r)
          (size + Int32.ofNat r.bytes.length)).map
            (⟨size + Int32.ofNat r.bytes.length, true,
              (unmasked key d k r).take r.bytes.length⟩ :: ·)
      else .ok [⟨size + Int32.ofNat r.bytes.length, false,
        (unmasked key d k r).take r.bytes.length⟩] := by
  rw [receive_cons hd hsize (by omega),
    umask_fits hkey (by rw [length_filled hd]; exact h), ok_bind]
  rfl

theorem receive_leaves (hkey : key.length = 4) (hd : d.length = BUFFER)
    (hsize : size.toInt = (k : ℤ)) (hk : k ≤ BUFFER) (h : BUFFER < k + r.bytes.length) :
    receive payload_length key (r :: reads) d size = .error .outOfBounds := by
  rw [receive_cons hd hsize hk, umask_leaves hkey (by rw [length_filled hd]; exact h)]
  rfl

@[simp] theorem total_nil : total [] = 0 := rfl

@[simp] theorem total_cons (r : Read) (reads : List Read) :
    total (r :: reads) = r.bytes.length + total reads := by
  simp [total]

theorem length_unmasked (key : Buffer) (hd : d.length = BUFFER) (k : ℕ) (r : Read) :
    (unmasked key d k r).length = BUFFER := by
  rw [unmasked, length_umask, length_filled hd]

/-- While all the reads fit into the array, the sizes are counts of bytes. -/
theorem receive_ok (hkey : key.length = 4) (hd : d.length = BUFFER) (hsize : size.toInt = (k : ℤ))
    (h : k + total (needed payload_length.toNat k reads) ≤ BUFFER) :
    ∃ rounds, receive payload_length key reads d size = .ok rounds ∧
      ∀ n round, rounds[n]? = some round →
        round.size.toInt = ((k + total (reads.take (n + 1)) : ℕ) : ℤ) ∧
          (round.continues = true ↔ k + total (reads.take (n + 1)) < payload_length.toNat) := by
  induction reads generalizing d k size with
  | nil => exact ⟨[], rfl, by simp⟩
  | cons r reads ih =>
    rw [needed] at h
    split_ifs at h with hmore
    · rw [total_cons] at h
      have hadd := size_add hsize (by omega) r
      obtain ⟨rounds, hrun, hrounds⟩ := ih (length_unmasked key hd k r) hadd (by omega)
      refine ⟨_, by rw [receive_fits hkey hd hsize (by omega), if_pos hmore, hrun]; rfl,
        fun n round hround => ?_⟩
      cases n with
      | zero =>
        obtain rfl : _ = round := Option.some.inj hround
        simpa [hadd] using hmore
      | succ n =>
        have := hrounds n round hround
        rwa [List.take_succ_cons, total_cons, ← Nat.add_assoc]
    · rw [total_cons, total_nil] at h
      have hadd := size_add hsize (by omega) r
      refine ⟨_, by rw [receive_fits hkey hd hsize (by omega), if_neg hmore],
        fun n round hround => ?_⟩
      cases n with
      | zero =>
        obtain rfl : _ = round := Option.some.inj hround
        simpa [hadd] using hmore
      | succ n => cases hround

/-- As soon as they do not, umask leaves it. -/
theorem receive_fault (hkey : key.length = 4) (hd : d.length = BUFFER)
    (hsize : size.toInt = (k : ℤ)) (hk : k ≤ BUFFER)
    (h : BUFFER < k + total (needed payload_length.toNat k reads)) :
    receive payload_length key reads d size = .error .outOfBounds := by
  induction reads generalizing d k size with
  | nil =>
    rw [needed, total_nil] at h
    omega
  | cons r reads ih =>
    by_cases hfits : k + r.bytes.length ≤ BUFFER
    · rw [needed] at h
      split_ifs at h with hmore
      · rw [total_cons] at h
        rw [receive_fits hkey hd hsize hfits, if_pos hmore,
          ih (length_unmasked key hd k r) (size_add hsize hk r) hfits (by omega)]
        rfl
      · rw [total_cons, total_nil] at h
        omega
    · exact receive_leaves hkey hd hsize hk (Nat.lt_of_not_le hfits)

/-- The reads from a socket that returns as much as the plan says. -/
inductive ReadsFrom (plan : ℕ → ℕ) : Socket → List Read → Prop where
  | closed {s} : s.readSome plan BUFFER = none → ReadsFrom plan s []
  | read {s s' r reads} : s.readSome plan BUFFER = some (r.bytes, s') → ReadsFrom plan s' reads →
      ReadsFrom plan s (r :: reads)

theorem exists_readsFrom (plan : ℕ → ℕ) (s : Socket) : ∃ reads, ReadsFrom plan s reads := by
  induction h : s.rest.length using Nat.strongRecOn generalizing s with
  | _ n ih =>
    subst h
    cases hread : s.readSome plan BUFFER with
    | none => exact ⟨[], .closed hread⟩
    | some p =>
      obtain ⟨bytes, s'⟩ := p
      obtain ⟨hpos, hfits, hrest⟩ := WebSocketFrames.readSome_bounds (by decide) hread
      obtain ⟨reads, hreads⟩ := ih s'.rest.length (by omega) s' rfl
      exact ⟨⟨bytes, hpos, hfits⟩ :: reads, .read hread hreads⟩

/-- What onReceiveData gets, unless the array is left. -/
def delivered (result : Except Fault (List Round)) : Option (List (List UInt8)) :=
  result.toOption.map (List.map Round.data)

def deliveredBytes (result : Option (List Delivery × Option Socket)) :
    Option (List (List UInt8)) :=
  result.bind fun (ds, e) => e.map fun _ => ds.map (List.map Prod.fst)

theorem delivered_cons {x : Except Fault (List Round)} {y : Option (List Delivery × Option Socket)}
    {round : Round} {delivery : Delivery} (hround : delivery.map Prod.fst = round.data)
    (h : delivered x = deliveredBytes y) :
    delivered (x.map (round :: ·)) =
      deliveredBytes (y.map fun (ds, e) => (delivery :: ds, e)) := by
  have hx : delivered (x.map (round :: ·)) = (delivered x).map (round.data :: ·) := by
    cases x <;> rfl
  have hy : deliveredBytes (y.map fun (ds, e) => (delivery :: ds, e)) =
      (deliveredBytes y).map (delivery.map Prod.fst :: ·) := by
    match y with
    | none => rfl
    | some (_, none) => rfl
    | some (_, some _) => rfl
  rw [hx, hy, h, hround]

/-- The loop of the receive path does the same, over an array without bounds and with a size
that never overflows. -/
theorem receive_socket {plan : ℕ → ℕ} {fuel : ℕ} {s : Socket} {head : FrameHead}
    (hreads : ReadsFrom plan s reads) (hhead : head.payload_length = payload_length.toNat)
    (hkey : head.masking_key.length = 4) (hd : d.length = BUFFER) (hsize : size.toInt = (k : ℤ))
    (hk : k ≤ BUFFER) (hfuel : s.rest.length < fuel) :
    delivered (receive payload_length head.masking_key reads d size) =
      deliveredBytes (WebSocketFrames.receive plan head fuel s d k) := by
  induction hreads generalizing d size k fuel with
  | closed hread =>
    obtain ⟨fuel, rfl⟩ : ∃ m, fuel = m + 1 := ⟨fuel - 1, by omega⟩
    rw [WebSocketFrames.receive, hread]
    rfl
  | @read s s' r reads hread _ ih =>
    obtain ⟨fuel, rfl⟩ : ∃ m, fuel = m + 1 := ⟨fuel - 1, by omega⟩
    have hlt := WebSocketFrames.readSome_shrinks (by decide) hread
    simp only [WebSocketFrames.receive, hread, hhead]
    by_cases hfits : k + r.bytes.length ≤ BUFFER
    · have hdata : (((unmasked head.masking_key d k r).take r.bytes.length).zipIdx s.offset).map
          Prod.fst = (unmasked head.masking_key d k r).take r.bytes.length :=
        List.zipIdx_map_fst _ _
      rw [receive_fits hkey hd hsize hfits, if_neg (Nat.not_lt.mpr hfits)]
      split_ifs with hmore
      · exact delivered_cons hdata (ih (length_unmasked head.masking_key hd k r)
          (size_add hsize hk r) hfits (by omega))
      · exact congrArg (fun data => some [data]) hdata.symm
    · rw [receive_leaves hkey hd hsize hk (Nat.lt_of_not_le hfits),
        if_pos (Nat.lt_of_not_le hfits)]
      rfl

/-- The size grows from read to read while the array is filled from its start each time: the
array is left as soon as the reads of one payload are longer together than it is. -/
theorem safe_iff (payload_length : UInt64) (key : Buffer) (reads : List Read)
    (hkey : key.length = 4) :
    Safe payload_length key reads ↔ total (needed payload_length.toNat 0 reads) ≤ BUFFER := by
  have hd : (zeros BUFFER).length = BUFFER := length_zeros BUFFER
  constructor
  · rintro ⟨rounds, hrun, -⟩
    by_contra hlong
    rw [receive_fault hkey hd rfl (Nat.zero_le _) (by omega)] at hrun
    cases hrun
  · intro hfits
    have hcount : 0 + total (needed payload_length.toNat 0 reads) ≤ BUFFER := by rwa [Nat.zero_add]
    have hzero : (0 : Int32).toInt = ((0 : ℕ) : ℤ) := rfl
    obtain ⟨rounds, hrun, hrounds⟩ := receive_ok hkey hd hzero hcount
    refine ⟨rounds, hrun, fun n round hround => ?_⟩
    have := hrounds n round hround
    rwa [Nat.zero_add] at this

end Rounds

def letters (n : ℕ) (positive : 0 < n) (fits : n ≤ BUFFER) : Read :=
  ⟨List.replicate n 0x61, by simpa using positive, by simpa using fits⟩

theorem safe_line : ([1, 2, 3, 4] : Buffer).length = 4 ∧
    Safe 1000 [1, 2, 3, 4]
      [letters 600 (by decide) (by decide), letters 400 (by decide) (by decide)] :=
  ⟨rfl, (safe_iff _ _ _ rfl).mpr (by decide +kernel)⟩

/-- A text of 2000 bytes: the second read fits the array, but umask goes over all 2000. -/
theorem long_text_leaves :
    receive 2000 [1, 2, 3, 4]
        [letters 1024 (by decide) (by decide), letters 976 (by decide) (by decide)]
        (zeros BUFFER) 0 = .error .outOfBounds ∧
      ¬∀ payload_length key reads, key.length = 4 → Safe payload_length key reads := by
  have hfault : receive 2000 [1, 2, 3, 4]
      [letters 1024 (by decide) (by decide), letters 976 (by decide) (by decide)]
      (zeros BUFFER) 0 = .error .outOfBounds :=
    receive_fault rfl (length_zeros BUFFER) (k := 0) rfl (Nat.zero_le _) (by decide +kernel)
  refine ⟨hfault, fun h => ?_⟩
  obtain ⟨rounds, hrun, -⟩ := h 2000 [1, 2, 3, 4]
    [letters 1024 (by decide) (by decide), letters 976 (by decide) (by decide)] rfl
  rw [hfault] at hrun
  cases hrun

end ReceiveBuffer
