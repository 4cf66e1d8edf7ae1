import AndroidDebug.CheckedFold
import AndroidDebug.WebSocketFrames

/-! What TermWebSocket_run hands to onReceiveData when each frame of the client arrives by
itself, its header in one piece and its payload in pieces. The loop is stated over any
connection, of which the socket read by a plan is one. -/
namespace ShellInput

open WebSocketFrames LengthFraming CheckedFold

/-- What the loop needs of a connection. A read is `none` where the call returns no byte;
`junk` is what the uninitialised locals hold after a read. -/
structure Channel (σ : Type) where
  read : ℕ → σ → Option (List UInt8 × σ)
  offset : σ → ℕ
  left : σ → ℕ
  junk : σ → ℕ → UInt8

section Loop

variable {σ : Type}

def Channel.get (ch : Channel σ) (n : ℕ) (s : σ) : Except σ (List UInt8 × σ) :=
  (ch.read n s).elim (.error s) .ok

def Channel.extendedLength (ch : Channel σ) (length : ℕ) (s : σ) : Except σ (ℕ × σ) :=
  if length = 126 then do
    let (extern_len, s) ← ch.get 2 s
    return (shortLength (filled (ch.junk s) 2 extern_len), s)
  else if length = 127 then do
    let (extern_len, s) ← ch.get 8 s
    return (longLength (filled (ch.junk s) 8 extern_len), s)
  else return (length, s)

/-- An error is a return of -1, with the connection as it is then. The masking key is read
whether or not the mask bit is set. -/
def Channel.recv_frame_head (ch : Channel σ) (s : σ) : Except σ (FrameHead × σ) := do
  let (first, s) ← ch.get 1 s
  let (second, s) ← ch.get 1 s
  let fin : Bool := (first.headD 0 &&& 0x80) = 0x80
  let opcode := first.headD 0 &&& 0x0F
  let mask : Bool := (second.headD 0 &&& 0x80) = 0x80
  let (payload_length, s) ← ch.extendedLength (second.headD 0 &&& 0x7F).toNat s
  let (key, s) ← ch.get 4 s
  return (⟨fin, opcode, mask, payload_length, filled (ch.junk s) 4 key⟩, s)

/-- The inner loop, without a state where umask left the array. -/
def Channel.receive (ch : Channel σ) (head : FrameHead) :
    ℕ → σ → List UInt8 → ℕ → Option (List Delivery × Option σ)
  | 0, _, _, _ => none
  | fuel + 1, s, payload_data, size =>
    match ch.read BUFFER s with
    | none => some ([], some s)
    | some (bytes, s') =>
      let size := size + bytes.length
      if BUFFER < size then some ([], none)
      else
        let payload_data :=
          umask (bytes ++ payload_data.drop bytes.length) size head.masking_key
        let delivery := (payload_data.take bytes.length).zipIdx (ch.offset s)
        if size < head.payload_length then
          (ch.receive head fuel s' payload_data size).map fun (ds, e) => (delivery :: ds, e)
        else some ([delivery], some s')

def Channel.run (ch : Channel σ) : ℕ → σ → Option (List Delivery × Option σ)
  | 0, _ => none
  | fuel + 1, s =>
    match ch.recv_frame_head s with
    | .error s => some ([], some s)
    | .ok (head, s) =>
      match ch.receive head (ch.left s + 1) s (List.replicate BUFFER 0) 0 with
      | none => none
      | some (ds, none) => some (ds, none)
      | some (ds, some s) => (ch.run fuel s).map fun (es, e) => (ds ++ es, e)

end Loop

section Sockets

def planned (plan : ℕ → ℕ) (junk : ℕ → ℕ → UInt8) : Channel Socket :=
  ⟨Socket.readSome plan, Socket.offset, fun s => s.rest.length, fun s => junk s.calls⟩

def ending {σ : Type} : Option σ → Ending
  | none => .outOfBounds
  | some _ => .closed

theorem receive_planned (plan : ℕ → ℕ) (junk : ℕ → ℕ → UInt8) (head : FrameHead) (fuel : ℕ)
    (s : Socket) (d : List UInt8) (size : ℕ) :
    (planned plan junk).receive head fuel s d size =
      WebSocketFrames.receive plan head fuel s d size := by
  induction fuel generalizing s d size with
  | zero => rfl
  | succ fuel ih =>
    have hread : (planned plan junk).read BUFFER s = s.readSome plan BUFFER := rfl
    have hoffset : (planned plan junk).offset s = s.offset := rfl
    simp only [Channel.receive, WebSocketFrames.receive, ih, hread, hoffset]
    cases s.readSome plan BUFFER <;> rfl

theorem toOption_bind {ε α β : Type} (x : Except ε α) (f : α → Except ε β) :
    (x >>= f).toOption = x.toOption.bind fun a => (f a).toOption := by
  cases x <;> rfl

theorem recv_planned (plan : ℕ → ℕ) (junk : ℕ → ℕ → UInt8) (s : Socket) :
    WebSocketFrames.recv_frame_head plan junk s =
      ((planned plan junk).recv_frame_head s).toOption := by
  have hget : ∀ n t, ((planned plan junk).get n t).toOption = t.readSome plan n := by
    intro n t
    have hread : (planned plan junk).get n t = (t.readSome plan n).elim (.error t) .ok := rfl
    rw [hread]
    cases t.readSome plan n <;> rfl
  have hlength : ∀ n t, ((planned plan junk).extendedLength n t).toOption =
      WebSocketFrames.extendedLength plan junk n t := by
    intro n t
    rw [Channel.extendedLength, WebSocketFrames.extendedLength]
    split_ifs
    · rw [toOption_bind, hget]
      rfl
    · rw [toOption_bind, hget]
      rfl
    · rfl
  rw [WebSocketFrames.recv_frame_head, Channel.recv_frame_head]
  simp only [toOption_bind, hget, hlength]
  rfl

/-- Over such a socket the loop is the one that reads by the plan. -/
theorem run_planned (plan : ℕ → ℕ) (junk : ℕ → ℕ → UInt8) (fuel : ℕ) (s : Socket) :
    WebSocketFrames.run plan junk fuel s =
      ((planned plan junk).run fuel s).map fun (ds, e) => (ds, ending e) := by
  induction fuel generalizing s with
  | zero => rfl
  | succ fuel ih =>
    rw [WebSocketFrames.run, Channel.run, recv_planned]
    cases (planned plan junk).recv_frame_head s with
    | error t => rfl
    | ok r =>
      obtain ⟨head, t⟩ := r
      simp only [Except.toOption, receive_planned]
      have hleft : (planned plan junk).left t = t.rest.length := rfl
      rw [hleft]
      cases WebSocketFrames.receive plan head (t.rest.length + 1) t
        (List.replicate BUFFER 0) 0 with
      | none => rfl
      | some r =>
        obtain ⟨ds, _ | u⟩ := r
        · rfl
        · simp only [ih, Option.map_map]
          rfl

end Sockets

section Reads

variable {σ : Type} {ch : Channel σ} {head : FrameHead} {s s' : σ} {d b : List UInt8}
  {ds : List Delivery} {e : Option σ} {n fuel size : ℕ}

/-- A read returns bytes, at most as many as asked for, until none is left. -/
structure Channel.Lawful (ch : Channel σ) : Prop where
  taken : ∀ {n s b s'}, 0 < n → ch.read n s = some (b, s') →
    b ≠ [] ∧ b.length ≤ n ∧ ch.offset s' = ch.offset s + b.length ∧
      ch.left s' + b.length = ch.left s
  ended : ∀ {n s}, ch.read n s = none → ch.left s = 0

theorem receive_cases (hrun : ch.receive head (fuel + 1) s d size = some (ds, e)) :
    (ch.read BUFFER s = none ∧ ds = [] ∧ e = some s) ∨
    ∃ b t, ch.read BUFFER s = some (b, t) ∧
      ((BUFFER < size + b.length ∧ ds = [] ∧ e = none) ∨
      ∃ d' es, size + b.length ≤ BUFFER ∧ d'.length = b.length + (d.length - b.length) ∧
        ds = (d'.take b.length).zipIdx (ch.offset s) :: es ∧
        ((size + b.length < head.payload_length ∧
          ch.receive head fuel t d' (size + b.length) = some (es, e)) ∨
        (head.payload_length ≤ size + b.length ∧ es = [] ∧ e = some t))) := by
  rw [Channel.receive] at hrun
  cases hread : ch.read BUFFER s with
  | none =>
    simp only [hread, Option.some.injEq, Prod.mk.injEq] at hrun
    exact .inl ⟨rfl, hrun.1.symm, hrun.2.symm⟩
  | some r =>
    obtain ⟨b, t⟩ := r
    refine .inr ⟨b, t, rfl, ?_⟩
    simp only [hread] at hrun
    have hlen : (umask (b ++ d.drop b.length) (size + b.length) head.masking_key).length =
        b.length + (d.length - b.length) := by
      simp [umask]
    split_ifs at hrun with hout hmore
    · obtain ⟨rfl, rfl⟩ := Prod.mk.inj (Option.some.inj hrun)
      exact .inl ⟨hout, rfl, rfl⟩
    · obtain ⟨⟨es, e'⟩, hrest, heq⟩ := Option.map_eq_some_iff.mp hrun
      obtain ⟨rfl, rfl⟩ := Prod.mk.inj heq
      exact .inr ⟨_, es, not_lt.mp hout, hlen, rfl, .inl ⟨hmore, hrest⟩⟩
    · obtain ⟨rfl, rfl⟩ := Prod.mk.inj (Option.some.inj hrun)
      exact .inr ⟨_, [], not_lt.mp hout, hlen, rfl, .inr ⟨not_lt.mp hmore, rfl, rfl⟩⟩

/-- The first read of a payload is delivered, whatever the frame. -/
theorem receive_first (hch : ch.Lawful) (hread : ch.read BUFFER s = some (b, s'))
    (hrun : ch.receive head (fuel + 1) s d 0 = some (ds, e)) :
    ∃ x, (x, ch.offset s) ∈ ds.flatten := by
  obtain ⟨hne, hlen, -, -⟩ := hch.taken (by decide) hread
  obtain ⟨hnone, -⟩ | ⟨b', t, hsome, ⟨hout, -⟩ | ⟨d', es, -, hlen', rfl, -⟩⟩ := receive_cases hrun
  · rw [hread] at hnone
    cases hnone
  · rw [hread] at hsome
    obtain ⟨rfl, -⟩ := Prod.mk.inj (Option.some.inj hsome)
    omega
  · rw [hread] at hsome
    obtain ⟨rfl, -⟩ := Prod.mk.inj (Option.some.inj hsome)
    have hpos : 0 < (d'.take b.length).length := by
      have := List.length_pos_iff.mpr hne
      rw [List.length_take]
      omega
    have hmem : ((d'.take b.length)[0], ch.offset s) ∈ (d'.take b.length).zipIdx (ch.offset s) := by
      rw [List.mk_mem_zipIdx_iff_le_and_getElem?_sub, Nat.sub_self]
      exact ⟨le_rfl, List.getElem?_eq_getElem hpos⟩
    exact ⟨_, List.mem_flatten.mpr ⟨_, List.mem_cons_self, hmem⟩⟩

/-- A payload that does not fit in the array takes umask out of it, if enough of it comes. -/
theorem receive_long (hch : ch.Lawful) (hlong : BUFFER < head.payload_length)
    (hsize : size ≤ BUFFER) (hleft : BUFFER < size + ch.left s)
    (hrun : ch.receive head fuel s d size = some (ds, e)) : e = none := by
  induction fuel generalizing s d size ds with
  | zero => cases hrun
  | succ fuel ih =>
    obtain ⟨hnone, -⟩ | ⟨b, t, hread, ⟨-, -, he⟩ | ⟨d', es, hfits, -, -, hrest⟩⟩ :=
      receive_cases hrun
    · have := hch.ended hnone
      omega
    · exact he
    · obtain ⟨-, -, -, hcount⟩ := hch.taken (by decide) hread
      obtain ⟨-, hrest⟩ | ⟨hdone, -⟩ := hrest
      · exact ih hfits (by omega) hrest
      · omega

/-- What the inner loop delivers lies between the places where it began and where it ended. -/
theorem receive_between (hch : ch.Lawful) (hrun : ch.receive head fuel s d size = some (ds, e)) :
    (∀ x ∈ ds.flatten, ch.offset s ≤ x.2 ∧ ∀ t, e = some t → x.2 < ch.offset t) ∧
      ∀ t, e = some t → ch.offset s ≤ ch.offset t ∧
        ch.left t + ch.offset t = ch.left s + ch.offset s := by
  induction fuel generalizing s d size ds with
  | zero => cases hrun
  | succ fuel ih =>
    obtain ⟨-, rfl, rfl⟩ | ⟨b, u, hread, ⟨-, rfl, rfl⟩ | ⟨d', es, -, -, rfl, hrest⟩⟩ :=
      receive_cases hrun
    · refine ⟨fun x hx => (List.not_mem_nil hx).elim, fun t ht => ?_⟩
      obtain rfl := Option.some.inj ht
      exact ⟨le_rfl, rfl⟩
    · exact ⟨fun x hx => (List.not_mem_nil hx).elim, fun t ht => nomatch ht⟩
    · obtain ⟨-, -, hoffset, hcount⟩ := hch.taken (by decide) hread
      have hplace : ∀ x ∈ (d'.take b.length).zipIdx (ch.offset s),
          ch.offset s ≤ x.2 ∧ x.2 < ch.offset u := by
        intro x hx
        have hlow := List.le_snd_of_mem_zipIdx hx
        have hhigh := List.snd_lt_add_of_mem_zipIdx hx
        rw [List.length_take] at hhigh
        omega
      obtain ⟨-, hrest⟩ | ⟨-, rfl, rfl⟩ := hrest
      · obtain ⟨hes, hend⟩ := ih hrest
        refine ⟨fun x hx => ?_, fun t ht => ?_⟩
        · rw [List.flatten_cons, List.mem_append] at hx
          obtain hx | hx := hx
          · have := hplace x hx
            refine ⟨this.1, fun t ht => ?_⟩
            have := (hend t ht).1
            omega
          · have := (hes x hx).1
            exact ⟨by omega, (hes x hx).2⟩
        · have := hend t ht
          omega
      · refine ⟨fun x hx => ?_, fun t ht => ?_⟩
        · rw [List.flatten_cons, List.flatten_nil, List.append_nil] at hx
          have := hplace x hx
          refine ⟨this.1, fun t ht => ?_⟩
          obtain rfl := Option.some.inj ht
          exact this.2
        · obtain rfl := Option.some.inj ht
          omega

theorem receive_ends (hch : ch.Lawful) (head : FrameHead) (d : List UInt8) (size : ℕ)
    (hfuel : ch.left s < fuel) : ∃ r, ch.receive head fuel s d size = some r := by
  induction fuel generalizing s d size with
  | zero => exact absurd hfuel (Nat.not_lt_zero _)
  | succ fuel ih =>
    rw [Channel.receive]
    cases hread : ch.read BUFFER s with
    | none => exact ⟨_, rfl⟩
    | some r =>
      obtain ⟨b, t⟩ := r
      obtain ⟨hne, -, -, hcount⟩ := hch.taken (by decide) hread
      have := List.length_pos_iff.mpr hne
      dsimp only
      split_ifs
      · exact ⟨_, rfl⟩
      · obtain ⟨r, hr⟩ := ih (s := t)
          (umask (b ++ d.drop b.length) (size + b.length) head.masking_key) (size + b.length)
          (by omega)
        exact ⟨_, by rw [hr, Option.map_some]⟩
      · exact ⟨_, rfl⟩

theorem get_taken (hch : ch.Lawful) (hn : 0 < n) (hget : ch.get n s = .ok (b, s')) :
    ch.offset s < ch.offset s' ∧ ch.left s' + ch.offset s' = ch.left s + ch.offset s := by
  rw [Channel.get] at hget
  cases hread : ch.read n s with
  | none =>
    rw [hread] at hget
    cases hget
  | some r =>
    rw [hread] at hget
    obtain rfl := Except.ok.inj hget
    obtain ⟨hne, -, hoffset, hcount⟩ := hch.taken hn hread
    have := List.length_pos_iff.mpr hne
    omega

theorem extendedLength_taken (hch : ch.Lawful) {k : ℕ}
    (hrun : ch.extendedLength n s = .ok (k, s')) :
    ch.offset s ≤ ch.offset s' ∧ ch.left s' + ch.offset s' = ch.left s + ch.offset s := by
  rw [Channel.extendedLength] at hrun
  split_ifs at hrun
  · obtain ⟨⟨b, t⟩, hget, heq⟩ := bind_ok_iff.mp hrun
    obtain ⟨-, rfl⟩ := Prod.mk.inj (Except.ok.inj heq)
    have := get_taken hch (by decide) hget
    omega
  · obtain ⟨⟨b, t⟩, hget, heq⟩ := bind_ok_iff.mp hrun
    obtain ⟨-, rfl⟩ := Prod.mk.inj (Except.ok.inj heq)
    have := get_taken hch (by decide) hget
    omega
  · obtain ⟨-, rfl⟩ := Prod.mk.inj (Except.ok.inj hrun)
    exact ⟨le_rfl, rfl⟩

theorem recv_taken (hch : ch.Lawful) (hrun : ch.recv_frame_head s = .ok (head, s')) :
    ch.offset s < ch.offset s' ∧ ch.left s' + ch.offset s' = ch.left s + ch.offset s := by
  obtain ⟨⟨b, t⟩, hfirst, hrun⟩ := bind_ok_iff.mp hrun
  obtain ⟨⟨b', t'⟩, hsecond, hrun⟩ := bind_ok_iff.mp hrun
  obtain ⟨⟨k, u⟩, hlength, hrun⟩ := bind_ok_iff.mp hrun
  obtain ⟨⟨key, u'⟩, hkey, heq⟩ := bind_ok_iff.mp hrun
  obtain ⟨-, rfl⟩ := Prod.mk.inj (Except.ok.inj heq)
  have h1 := get_taken hch (by decide) hfirst
  have h2 := get_taken hch (by decide) hsecond
  have h3 := extendedLength_taken hch hlength
  have h4 := get_taken hch (by decide) hkey
  omega

theorem run_cases (hrun : ch.run (fuel + 1) s = some (ds, e)) :
    (∃ t, ch.recv_frame_head s = .error t ∧ ds = [] ∧ e = some t) ∨
    ∃ head t es e', ch.recv_frame_head s = .ok (head, t) ∧
      ch.receive head (ch.left t + 1) t (List.replicate BUFFER 0) 0 = some (es, e') ∧
      ((e' = none ∧ ds = es ∧ e = none) ∨
      ∃ u fs, e' = some u ∧ ch.run fuel u = some (fs, e) ∧ ds = es ++ fs) := by
  rw [Channel.run] at hrun
  cases hrecv : ch.recv_frame_head s with
  | error t =>
    simp only [hrecv, Option.some.injEq, Prod.mk.injEq] at hrun
    exact .inl ⟨t, rfl, hrun.1.symm, hrun.2.symm⟩
  | ok r =>
    obtain ⟨head, t⟩ := r
    simp only [hrecv] at hrun
    cases hreceive : ch.receive head (ch.left t + 1) t (List.replicate BUFFER 0) 0 with
    | none =>
      rw [hreceive] at hrun
      cases hrun
    | some r =>
      obtain ⟨es, _ | u⟩ := r
      · simp only [hreceive, Option.some.injEq, Prod.mk.injEq] at hrun
        exact .inr ⟨head, t, es, none, rfl, hreceive, .inl ⟨rfl, hrun.1.symm, hrun.2.symm⟩⟩
      · simp only [hreceive] at hrun
        obtain ⟨⟨fs, e'⟩, hrest, heq⟩ := Option.map_eq_some_iff.mp hrun
        obtain ⟨rfl, rfl⟩ := Prod.mk.inj heq
        exact .inr ⟨head, t, es, some u, rfl, hreceive, .inr ⟨u, fs, rfl, hrest, rfl⟩⟩

theorem run_of_recv (hrecv : ch.recv_frame_head s = .ok (head, s'))
    (hrun : ch.run (fuel + 1) s = some (ds, e)) :
    ∃ es e', ch.receive head (ch.left s' + 1) s' (List.replicate BUFFER 0) 0 = some (es, e') ∧
      ((e' = none ∧ ds = es ∧ e = none) ∨
      ∃ u fs, e' = some u ∧ ch.run fuel u = some (fs, e) ∧ ds = es ++ fs) := by
  obtain ⟨u, herr, -⟩ | ⟨head', t, es, e', hok, hrest⟩ := run_cases hrun
  · rw [hrecv] at herr
    cases herr
  · rw [hrecv] at hok
    obtain ⟨rfl, rfl⟩ := Prod.mk.inj (Except.ok.inj hok)
    exact ⟨es, e', hrest⟩

/-- No byte before the state of the connection is delivered. -/
theorem run_after (hch : ch.Lawful) (hrun : ch.run fuel s = some (ds, e)) :
    ∀ x ∈ ds.flatten, ch.offset s ≤ x.2 := by
  induction fuel generalizing s ds with
  | zero => cases hrun
  | succ fuel ih =>
    obtain ⟨-, -, rfl, -⟩ | ⟨head, t, es, e', hrecv, hreceive, hrest⟩ := run_cases hrun
    · exact fun x hx => (List.not_mem_nil hx).elim
    · have hhead := (recv_taken hch hrecv).1
      obtain ⟨hes, hend⟩ := receive_between hch hreceive
      obtain ⟨-, rfl, -⟩ | ⟨u, fs, rfl, hfs, rfl⟩ := hrest
      · intro x hx
        have := (hes x hx).1
        omega
      · intro x hx
        rw [List.flatten_append, List.mem_append] at hx
        obtain hx | hx := hx
        · have := (hes x hx).1
          omega
        · have := ih hfs x hx
          have := (hend u rfl).1
          omega

theorem run_ends (hch : ch.Lawful) (hfuel : ch.left s < fuel) : ∃ r, ch.run fuel s = some r := by
  induction fuel generalizing s with
  | zero => exact absurd hfuel (Nat.not_lt_zero _)
  | succ fuel ih =>
    rw [Channel.run]
    cases hrecv : ch.recv_frame_head s with
    | error t => exact ⟨_, rfl⟩
    | ok r =>
      obtain ⟨head, t⟩ := r
      have hhead := recv_taken hch hrecv
      obtain ⟨⟨ds, e⟩, hreceive⟩ :=
        receive_ends hch head (List.replicate BUFFER 0) 0 (Nat.lt_succ_self (ch.left t))
      have hend := (receive_between hch hreceive).2
      simp only [hreceive]
      cases e with
      | none => exact ⟨_, rfl⟩
      | some u =>
        have hu := hend u rfl
        obtain ⟨r, hr⟩ := ih (s := u) (by omega)
        refine ⟨(ds ++ r.1, r.2), ?_⟩
        simp only [hr, Option.map_some]

end Reads

section Arriving

abbrev Piece := {p : List UInt8 // p ≠ []}

def bytes (ps : List Piece) : List UInt8 := ps.flatMap Subtype.val

def push (b : List UInt8) (ps : List Piece) : List Piece :=
  if h : b = [] then ps else ⟨b, h⟩ :: ps

structure Arrivals where
  pieces : List Piece
  offset : ℕ

/-- A read does not go beyond the piece it is in. -/
def Arrivals.read (n : ℕ) : Arrivals → Option (List UInt8 × Arrivals)
  | ⟨[], _⟩ => none
  | ⟨p :: ps, o⟩ => some (p.1.take n, ⟨push (p.1.drop n) ps, o + min n p.1.length⟩)

def arriving (junk : ℕ → ℕ → UInt8) : Channel Arrivals :=
  ⟨Arrivals.read, Arrivals.offset, fun s => (bytes s.pieces).length, fun s => junk s.offset⟩

@[simp] theorem bytes_cons (p : Piece) (ps : List Piece) : bytes (p :: ps) = p.1 ++ bytes ps := rfl

@[simp] theorem bytes_append (ps qs : List Piece) : bytes (ps ++ qs) = bytes ps ++ bytes qs :=
  List.flatMap_append

@[simp] theorem bytes_push (b : List UInt8) (ps : List Piece) :
    bytes (push b ps) = b ++ bytes ps := by
  rw [push]
  split_ifs with h
  · rw [h, List.nil_append]
  · rfl

@[simp] theorem push_nil (ps : List Piece) : push [] ps = ps := dif_pos rfl

theorem push_ne {b : List UInt8} (h : b ≠ []) (ps : List Piece) : push b ps = ⟨b, h⟩ :: ps :=
  dif_neg h

theorem bytes_eq_nil {ps : List Piece} : bytes ps = [] ↔ ps = [] := by
  cases ps with
  | nil => exact ⟨fun _ => rfl, fun _ => rfl⟩
  | cons p ps => simp [p.2]

theorem lawful_arriving (junk : ℕ → ℕ → UInt8) : (arriving junk).Lawful where
  taken := by
    rintro n ⟨_ | ⟨p, ps⟩, o⟩ b s' hn hread
    · cases hread
    · obtain ⟨rfl, rfl⟩ := Prod.mk.inj (Option.some.inj hread)
      have hpos := List.length_pos_iff.mpr p.2
      refine ⟨?_, List.length_take_le n p.1, ?_, ?_⟩
      · rw [← List.length_pos_iff, List.length_take]
        omega
      · simp [arriving]
      · simp only [arriving, bytes_push, bytes_cons, List.length_append, List.length_drop,
          List.length_take]
        omega
  ended := by
    rintro n ⟨_ | ⟨p, ps⟩, o⟩ hread
    · rfl
    · cases hread

/-- A field at the head of a piece comes in one read. -/
theorem read_push {n : ℕ} {a : List UInt8} (ha : a.length = n) (hn : 0 < n) (b : List UInt8)
    (ps : List Piece) (o : ℕ) :
    Arrivals.read n ⟨push (a ++ b) ps, o⟩ = some (a, ⟨push b ps, o + n⟩) := by
  have hne : a ++ b ≠ [] := by
    rw [← List.length_pos_iff, List.length_append]
    omega
  subst ha
  rw [push_ne hne, Arrivals.read]
  simp

theorem read_piece {n : ℕ} {p : Piece} (hp : p.1.length ≤ n) (ps : List Piece) (o : ℕ) :
    Arrivals.read n ⟨p :: ps, o⟩ = some (p.1, ⟨ps, o + p.1.length⟩) := by
  rw [Arrivals.read, List.take_of_length_le hp, List.drop_of_length_le hp, min_eq_right hp,
    push_nil]

end Arriving

/-- A frame of a client and the pieces its payload arrives in. `first` holds the FIN bit, the
reserved bits and the opcode; the mask bit is set if and only if there is a key. -/
structure Frame where
  first : UInt8
  key : Option {k : List UInt8 // k.length = 4}
  payload : List Piece
  payload_length : (bytes payload).length < 2 ^ 63

def Frame.opcode (f : Frame) : UInt8 := f.first &&& 0x0F

def Frame.keyBytes (f : Frame) : List UInt8 := f.key.elim [] Subtype.val

def maskBit (masked : Bool) : UInt8 := if masked then 0x80 else 0

def lengthBits (n : ℕ) : ℕ := if n < 126 then n else if n < 65536 then 126 else 127

def lengthBytes (n : ℕ) : List UInt8 :=
  if n < 126 then [] else if n < 65536 then be 2 n else be 8 n

def Frame.header (f : Frame) : List UInt8 :=
  f.first :: (maskBit f.key.isSome ||| UInt8.ofNat (lengthBits (bytes f.payload).length)) ::
    (lengthBytes (bytes f.payload).length ++ f.keyBytes)

def Frame.pieces (f : Frame) : List Piece :=
  ⟨f.header, List.cons_ne_nil _ _⟩ :: f.payload

def pieces (fs : List Frame) : List Piece := fs.flatMap Frame.pieces

def Frame.Data (f : Frame) : Prop :=
  f.key ≠ none ∧ (f.opcode = 0 ∨ f.opcode = 1 ∨ f.opcode = 2)

def Frame.Last (f : Frame) : Prop := f.key = none ∨ f.opcode = 8

instance (f : Frame) : Decidable f.Data := inferInstanceAs (Decidable (_ ∧ _))

instance (f : Frame) : Decidable f.Last := inferInstanceAs (Decidable (_ ∨ _))

/-- The places of the stream whose bytes may be delivered, the first frame being at `o`. -/
def deliverable : ℕ → List Frame → List ℕ
  | _, [] => []
  | o, f :: fs =>
    if f.Last then []
    else (if f.Data then List.range' (o + f.header.length) (bytes f.payload).length else []) ++
      deliverable (o + (bytes f.pieces).length) fs

def following : List Frame → List Frame
  | [] => []
  | f :: fs => if f.Last then fs else following fs

/-- The run ends, every byte delivered is of the payload of a data frame, and what follows a
last frame is still on the connection. -/
def OnlyData (junk : ℕ → ℕ → UInt8) (fuel o : ℕ) (fs : List Frame) : Prop :=
  ∃ ds s, (arriving junk).run fuel ⟨pieces fs, o⟩ = some (ds, some s) ∧
    (∀ x ∈ ds.flatten, x.2 ∈ deliverable o fs) ∧ s.pieces = pieces (following fs)

/-- Every frame is a data frame with a payload, and one that the array holds. The last one may
also be without a payload, or be an unmasked one whose payload is taken for the key. -/
def Harmless : List Frame → Prop
  | [] => True
  | f :: fs =>
    if f.key = none then fs = [] ∧ ∀ p ∈ f.payload, f.payload = [p] ∧ p.1.length ≤ 4
    else if f.payload = [] then fs = []
    else f.Data ∧ (bytes f.payload).length ≤ BUFFER ∧ Harmless fs

section Headers

variable {junk : ℕ → ℕ → UInt8} {f : Frame} {ps : List Piece} {o : ℕ}

theorem second_byte (masked : Bool) {n : ℕ} (h : n < 128) :
    decide ((maskBit masked ||| UInt8.ofNat n) &&& 0x80 = 0x80) = masked ∧
      ((maskBit masked ||| UInt8.ofNat n) &&& 0x7F).toNat = n := by
  revert masked n
  decide +kernel

theorem lengthBits_lt (n : ℕ) : lengthBits n < 128 := by
  rw [lengthBits]
  split_ifs <;> omega

theorem get_push {n : ℕ} {a : List UInt8} (ha : a.length = n) (hn : 0 < n) (b : List UInt8) :
    (arriving junk).get n ⟨push (a ++ b) ps, o⟩ = .ok (a, ⟨push b ps, o + n⟩) := by
  have hread : (arriving junk).read = Arrivals.read := rfl
  rw [Channel.get, hread, read_push ha hn]
  rfl

theorem extendedLength_push {n : ℕ} (hn : n < 2 ^ 63) (b : List UInt8) :
    (arriving junk).extendedLength (lengthBits n) ⟨push (lengthBytes n ++ b) ps, o⟩ =
      .ok (n, ⟨push b ps, o + (lengthBytes n).length⟩) := by
  rw [Channel.extendedLength, lengthBytes, lengthBits]
  by_cases hshort : n < 126
  · have hne : n ≠ 126 ∧ n ≠ 127 := by omega
    simp only [if_pos hshort, if_neg hne.1, if_neg hne.2]
    rfl
  by_cases hmedium : n < 65536
  · simp only [if_neg hshort, if_pos hmedium, if_true]
    rw [get_push (length_be 2 n) (by decide), ok_bind, filled_whole _ (length_be 2 n),
      shortLength_be hmedium, length_be]
    rfl
  · have hlong : n < 256 ^ 8 := by omega
    have hne : ¬127 = 126 := by decide
    simp only [if_neg hshort, if_neg hmedium, if_true, if_neg hne]
    rw [get_push (length_be 8 n) (by decide), ok_bind, filled_whole _ (length_be 8 n),
      longLength_eq, readBE_be hlong, length_be]
    rfl

/-- A header is read up to its masking key, which is looked for in any case. -/
theorem recv_pieces (f : Frame) (ps : List Piece) (o : ℕ) :
    (arriving junk).recv_frame_head ⟨f.pieces ++ ps, o⟩ =
      (arriving junk).get 4 ⟨push f.keyBytes (f.payload ++ ps),
          o + 2 + (lengthBytes (bytes f.payload).length).length⟩ >>= fun (key, s) =>
        .ok (⟨f.first &&& 0x80 = 0x80, f.opcode, f.key.isSome, (bytes f.payload).length,
          filled (junk s.offset) 4 key⟩, s) := by
  have hbits := second_byte f.key.isSome (lengthBits_lt (bytes f.payload).length)
  set second := maskBit f.key.isSome ||| UInt8.ofNat (lengthBits (bytes f.payload).length)
    with hsecond
  have hpieces : f.pieces ++ ps = push ([f.first] ++ ([second] ++
      (lengthBytes (bytes f.payload).length ++ f.keyBytes))) (f.payload ++ ps) := by
    simp only [List.cons_append, List.nil_append]
    rw [push_ne (List.cons_ne_nil _ _)]
    rfl
  have hone : ∀ x : UInt8, [x].length = 1 := fun _ => rfl
  rw [hpieces, Channel.recv_frame_head, get_push (hone f.first) (by decide), ok_bind]
  dsimp only
  rw [get_push (hone second) (by decide), ok_bind]
  simp only [List.headD_cons, hbits.2, extendedLength_push f.payload_length, ok_bind]
  rw [← hbits.1]
  rfl

theorem Frame.length_header (f : Frame) : f.header.length =
    2 + (lengthBytes (bytes f.payload).length).length + f.keyBytes.length := by
  simp only [Frame.header, List.length_cons, List.length_append]
  omega

theorem recv_masked {k : {k : List UInt8 // k.length = 4}} (hkey : f.key = some k)
    (junk : ℕ → ℕ → UInt8) (ps : List Piece) (o : ℕ) :
    (arriving junk).recv_frame_head ⟨f.pieces ++ ps, o⟩ =
      .ok (⟨f.first &&& 0x80 = 0x80, f.opcode, true, (bytes f.payload).length, k.1⟩,
        ⟨f.payload ++ ps, o + f.header.length⟩) := by
  have hbytes : f.keyBytes = k.1 ++ [] := by
    rw [Frame.keyBytes, hkey, List.append_nil]
    rfl
  have hlen : o + 2 + (lengthBytes (bytes f.payload).length).length + 4 = o + f.header.length := by
    rw [f.length_header, hbytes, List.append_nil, k.2]
    omega
  rw [recv_pieces, hbytes, get_push k.2 (by decide), ok_bind, push_nil, hlen, hkey]
  simp [filled_whole _ k.2]

/-- For an unmasked frame the key is taken from what follows its header. -/
theorem recv_unmasked (hkey : f.key = none) (ps : List Piece) (o : ℕ) :
    (arriving junk).recv_frame_head ⟨f.pieces ++ ps, o⟩ =
      (arriving junk).get 4 ⟨f.payload ++ ps, o + f.header.length⟩ >>= fun (key, s) =>
        .ok (⟨f.first &&& 0x80 = 0x80, f.opcode, false, (bytes f.payload).length,
          filled (junk s.offset) 4 key⟩, s) := by
  have hbytes : f.keyBytes = [] := by
    rw [Frame.keyBytes, hkey]
    rfl
  have hlen : o + 2 + (lengthBytes (bytes f.payload).length).length = o + f.header.length := by
    rw [f.length_header, hbytes, List.length_nil]
    omega
  rw [recv_pieces, hbytes, push_nil, hlen, hkey]
  rfl

end Headers

section Frames

variable {junk : ℕ → ℕ → UInt8} {f : Frame} {fs : List Frame} {head : FrameHead}
  {ps qs : List Piece} {o fuel size : ℕ} {d : List UInt8}

/-- A payload that the array holds is read piece by piece, and nothing after it. -/
theorem receive_whole (hps : ps ≠ []) (hfuel : (bytes ps).length < fuel)
    (hsize : size + (bytes ps).length = head.payload_length)
    (hfits : head.payload_length ≤ BUFFER) :
    ∃ ds, (arriving junk).receive head fuel ⟨ps ++ qs, o⟩ d size =
      some (ds, some ⟨qs, o + (bytes ps).length⟩) := by
  induction ps generalizing fuel o d size with
  | nil => exact absurd rfl hps
  | cons p ps ih =>
    obtain ⟨n, rfl⟩ : ∃ n, fuel = n + 1 := ⟨fuel - 1, by omega⟩
    have hpos := List.length_pos_iff.mpr p.2
    rw [bytes_cons, List.length_append] at hsize hfuel ⊢
    have hread : (arriving junk).read BUFFER ⟨p :: (ps ++ qs), o⟩ =
      some (p.1, ⟨ps ++ qs, o + p.1.length⟩) := read_piece (by omega) _ _
    have hin : ¬BUFFER < size + p.1.length := by omega
    rw [List.cons_append, Channel.receive, hread]
    simp only [hin, if_false]
    by_cases hlast : ps = []
    · have hdone : ¬size + p.1.length < head.payload_length := by
        rw [hlast] at hsize
        simp only [bytes, List.flatMap_nil, List.length_nil] at hsize
        omega
      rw [if_neg hdone, hlast]
      exact ⟨_, rfl⟩
    · have hmore : size + p.1.length < head.payload_length := by
        have := List.length_pos_iff.mpr (mt bytes_eq_nil.mp hlast)
        omega
      have hn : (bytes ps).length < n := by omega
      have hsum : size + p.1.length + (bytes ps).length = head.payload_length := by omega
      obtain ⟨ds, hds⟩ := ih (o := o + p.1.length) (d := umask (p.1 ++ d.drop p.1.length)
        (size + p.1.length) head.masking_key) hlast hn hsum
      rw [if_pos hmore, hds, Option.map_some, Nat.add_assoc]
      exact ⟨_, rfl⟩

theorem deliverable_after (o : ℕ) (fs : List Frame) : ∀ p ∈ deliverable o fs, o < p := by
  induction fs generalizing o with
  | nil => exact fun p hp => (List.not_mem_nil hp).elim
  | cons f fs ih =>
    intro p hp
    have hheader : 0 < f.header.length := List.length_pos_iff.mpr (List.cons_ne_nil _ _)
    rw [deliverable] at hp
    split_ifs at hp with hlast hdata
    · exact (List.not_mem_nil hp).elim
    · rw [List.mem_append, List.mem_range'_1] at hp
      obtain ⟨hp, -⟩ | hp := hp
      · omega
      · have := ih _ p hp
        omega
    · rw [List.nil_append] at hp
      have := ih _ p hp
      omega

theorem pieces_cons (f : Frame) (fs : List Frame) : pieces (f :: fs) = f.pieces ++ pieces fs := rfl

theorem length_pieces (f : Frame) :
    (bytes f.pieces).length = f.header.length + (bytes f.payload).length := by
  rw [Frame.pieces, bytes_cons, List.length_append]

theorem run_delivers {s t : Arrivals} {ds : List Delivery} {e : Option Arrivals}
    (hrecv : (arriving junk).recv_frame_head s = .ok (head, t)) (ht : t.pieces ≠ [])
    (hrun : (arriving junk).run (fuel + 1) s = some (ds, e)) :
    ∃ x, (x, t.offset) ∈ ds.flatten := by
  obtain ⟨p, hp⟩ : ∃ r, (arriving junk).read BUFFER t = some r := by
    obtain ⟨_ | ⟨p, ps⟩, o⟩ := t
    · exact absurd rfl ht
    · exact ⟨_, rfl⟩
  obtain ⟨es, e', hreceive, hrest⟩ := run_of_recv hrecv hrun
  obtain ⟨x, hx⟩ := receive_first (lawful_arriving junk) hp hreceive
  refine ⟨x, ?_⟩
  obtain ⟨-, rfl, -⟩ | ⟨u, fs, -, -, rfl⟩ := hrest
  · exact hx
  · rw [List.flatten_append]
    exact List.mem_append_left _ hx

theorem run_last {s : Arrivals} (hrecv : (arriving junk).recv_frame_head s = .ok (head, ⟨[], o⟩)) :
    (arriving junk).run (fuel + 2) s = some ([], some ⟨[], o⟩) := by
  rw [Channel.run, hrecv]
  rfl

theorem push_eq_nil {b : List UInt8} : push b ps = [] ↔ b = [] ∧ ps = [] := by
  rw [← bytes_eq_nil, bytes_push, List.append_eq_nil_iff, bytes_eq_nil]

theorem pieces_eq_nil : pieces fs = [] ↔ fs = [] := by
  cases fs with
  | nil => exact ⟨fun _ => rfl, fun _ => rfl⟩
  | cons f fs => exact ⟨fun h => (nomatch h), fun h => (nomatch h)⟩

theorem recv_key (junk : ℕ → ℕ → UInt8) (o : ℕ) (hkey : f.key = none) {p : Piece}
    (hp : f.payload ++ ps = p :: qs) :
    ∃ head, (arriving junk).recv_frame_head ⟨f.pieces ++ ps, o⟩ =
      .ok (head, ⟨push (p.1.drop 4) qs, o + f.header.length + min 4 p.1.length⟩) := by
  rw [recv_unmasked hkey, hp]
  exact ⟨_, rfl⟩

/-- An unmasked frame has to be the last one, and its payload has to be short. -/
theorem unmasked_iff (hkey : f.key = none) :
    OnlyData junk (fuel + 2) o (f :: fs) ↔
      fs = [] ∧ ∀ p ∈ f.payload, f.payload = [p] ∧ p.1.length ≤ 4 := by
  have hlast : f.Last := .inl hkey
  have hfollowing : following (f :: fs) = fs := if_pos hlast
  have hnone : deliverable o (f :: fs) = [] := if_pos hlast
  rw [OnlyData, hnone, hfollowing, pieces_cons]
  constructor
  · rintro ⟨ds, s, hrun, hdata, hleft⟩
    cases hrest : f.payload ++ pieces fs with
    | nil =>
      obtain ⟨hpayload, hfs⟩ := List.append_eq_nil_iff.mp hrest
      rw [hpayload]
      exact ⟨pieces_eq_nil.mp hfs, fun p hp => (List.not_mem_nil hp).elim⟩
    | cons p qs =>
      obtain ⟨head, hrecv⟩ := recv_key junk o hkey hrest
      by_cases hpush : push (p.1.drop 4) qs = []
      · rw [hpush] at hrecv
        rw [run_last hrecv] at hrun
        obtain ⟨-, hs⟩ := Prod.mk.inj (Option.some.inj hrun)
        obtain rfl := Option.some.inj hs
        have hfs : fs = [] := pieces_eq_nil.mp hleft.symm
        obtain ⟨hp, rfl⟩ := push_eq_nil.mp hpush
        rw [hfs, pieces, List.flatMap_nil, List.append_nil] at hrest
        refine ⟨hfs, fun q hq => ?_⟩
        rw [hrest, List.mem_singleton] at hq
        rw [hrest, hq]
        exact ⟨rfl, List.drop_eq_nil_iff.mp hp⟩
      · obtain ⟨x, hx⟩ := run_delivers hrecv hpush hrun
        exact (List.not_mem_nil (hdata _ hx)).elim
  · rintro ⟨rfl, hshort⟩
    cases hpayload : f.payload with
    | nil =>
      have hrecv : (arriving junk).recv_frame_head ⟨f.pieces ++ pieces [], o⟩ =
          .error ⟨[], o + f.header.length⟩ := by
        rw [recv_unmasked hkey, hpayload]
        rfl
      refine ⟨[], ⟨[], o + f.header.length⟩, ?_, fun x hx => (List.not_mem_nil hx).elim, rfl⟩
      rw [Channel.run, hrecv]
    | cons p ps =>
      have hp := hshort p (by rw [hpayload]; exact List.mem_cons_self)
      obtain ⟨head, hrecv⟩ :=
        recv_key junk o hkey ((List.append_nil _).trans hp.1)
      rw [List.drop_of_length_le hp.2, push_nil] at hrecv
      exact ⟨_, _, run_last hrecv, fun x hx => (List.not_mem_nil hx).elim, rfl⟩

/-- A payload that the array does not hold is out of bounds. -/
theorem run_long {s t : Arrivals} {ds : List Delivery} {e : Option Arrivals}
    (hrecv : (arriving junk).recv_frame_head s = .ok (head, t))
    (hlong : BUFFER < head.payload_length) (hleft : BUFFER < (bytes t.pieces).length)
    (hrun : (arriving junk).run (fuel + 1) s = some (ds, e)) : e = none := by
  obtain ⟨es, e', hreceive, hrest⟩ := run_of_recv hrecv hrun
  have hout := receive_long (lawful_arriving junk) hlong (Nat.zero_le _)
    (by rwa [Nat.zero_add]) hreceive
  obtain ⟨-, -, he⟩ | ⟨u, fs, hu, -⟩ := hrest
  · exact he
  · rw [hout] at hu
    cases hu

/-- What comes after the header of a frame without data may not be delivered. -/
theorem not_deliverable (hf : f.payload = [] ∨ ¬f.Data) :
    o + f.header.length ∉ deliverable o (f :: fs) := by
  have htail : o + f.header.length ∉ deliverable (o + (bytes f.pieces).length) fs := by
    intro hmem
    have := deliverable_after _ _ _ hmem
    rw [length_pieces] at this
    omega
  rw [deliverable]
  split_ifs with hlast hdata
  · exact List.not_mem_nil
  · have hpayload := hf.resolve_right (not_not.mpr hdata)
    rw [hpayload]
    exact htail
  · exact htail

theorem masked_empty_iff (hkey : f.key ≠ none) (hpayload : f.payload = []) :
    OnlyData junk (fuel + 2) o (f :: fs) ↔ fs = [] := by
  obtain ⟨k, hk⟩ := Option.ne_none_iff_exists'.mp hkey
  have hrecv := recv_masked hk junk (pieces fs) o
  rw [hpayload, List.nil_append] at hrecv
  rw [OnlyData, pieces_cons]
  constructor
  · rintro ⟨ds, s, hrun, hdata, -⟩
    by_contra hfs
    obtain ⟨x, hx⟩ := run_delivers hrecv (mt pieces_eq_nil.mp hfs) hrun
    exact not_deliverable (.inl hpayload) (hdata _ hx)
  · rintro rfl
    refine ⟨_, _, run_last hrecv, fun x hx => (List.not_mem_nil hx).elim, ?_⟩
    rw [following]
    split_ifs <;> rfl

theorem not_last (hdata : f.Data) : ¬f.Last := by
  rintro (hkey | hclose)
  · exact hdata.1 hkey
  · rw [Frame.Data, hclose] at hdata
    exact absurd hdata.2 (by decide)

/-- The run goes from a frame with a payload to the next, if the array holds the payload. -/
theorem run_round (hkey : f.key ≠ none) (hpayload : f.payload ≠ [])
    (hfits : (bytes f.payload).length ≤ BUFFER) (junk : ℕ → ℕ → UInt8) (fuel o : ℕ)
    (ps : List Piece) :
    ∃ ds : List Delivery,
      (∀ x ∈ ds.flatten, x.2 ∈ List.range' (o + f.header.length) (bytes f.payload).length) ∧
      (arriving junk).run (fuel + 1) ⟨f.pieces ++ ps, o⟩ =
        ((arriving junk).run fuel ⟨ps, o + (bytes f.pieces).length⟩).map
          fun (es, e) => (ds ++ es, e) := by
  obtain ⟨k, hk⟩ := Option.ne_none_iff_exists'.mp hkey
  have hrecv := recv_masked hk junk ps o
  set t : Arrivals := ⟨f.payload ++ ps, o + f.header.length⟩ with ht
  set head : FrameHead := ⟨f.first &&& 0x80 = 0x80, f.opcode, true, (bytes f.payload).length, k.1⟩
  have hfuel : (bytes f.payload).length < (arriving junk).left t + 1 := by
    simp only [arriving, ht, bytes_append, List.length_append]
    omega
  have hwhole : ∃ ds, (arriving junk).receive head ((arriving junk).left t + 1) t
      (List.replicate BUFFER 0) 0 =
        some (ds, some ⟨ps, o + f.header.length + (bytes f.payload).length⟩) :=
    receive_whole hpayload hfuel (Nat.zero_add _) hfits
  obtain ⟨ds, hds⟩ := hwhole
  refine ⟨ds, fun x hx => ?_, ?_⟩
  · have hx := (receive_between (lawful_arriving junk) hds).1 x hx
    rw [List.mem_range'_1]
    exact ⟨hx.1, hx.2 _ rfl⟩
  · rw [Channel.run, hrecv]
    simp only [hds]
    rw [length_pieces, Nat.add_assoc]

/-- A frame with a payload has to be a data frame that the array holds; the run then goes on
with the next. -/
theorem masked_iff (hkey : f.key ≠ none) (hpayload : f.payload ≠ []) :
    OnlyData junk (fuel + 1) o (f :: fs) ↔ f.Data ∧ (bytes f.payload).length ≤ BUFFER ∧
      OnlyData junk fuel (o + (bytes f.pieces).length) fs := by
  obtain ⟨k, hk⟩ := Option.ne_none_iff_exists'.mp hkey
  have hrecv := recv_masked hk junk (pieces fs) o
  have hsome : f.payload ++ pieces fs ≠ [] := fun h => hpayload (List.append_eq_nil_iff.mp h).1
  have hpos := List.length_pos_iff.mpr (mt bytes_eq_nil.mp hpayload)
  constructor
  · rintro ⟨ds, s, hrun, hdata, hleft⟩
    rw [pieces_cons] at hrun
    have hf : f.Data := by
      by_contra hnot
      obtain ⟨x, hx⟩ := run_delivers hrecv hsome hrun
      exact not_deliverable (.inr hnot) (hdata _ hx)
    have hfits : (bytes f.payload).length ≤ BUFFER := by
      by_contra hlong
      have hout := run_long hrecv (not_le.mp hlong)
        (by simp only [bytes_append, List.length_append]; omega) hrun
      cases hout
    obtain ⟨es, -, hround⟩ := run_round hkey hpayload hfits junk fuel o (pieces fs)
    rw [hround] at hrun
    obtain ⟨⟨ds', e⟩, hrest, heq⟩ := Option.map_eq_some_iff.mp hrun
    obtain ⟨rfl, rfl⟩ := Prod.mk.inj heq
    rw [following, if_neg (not_last hf)] at hleft
    refine ⟨hf, hfits, ds', s, hrest, fun x hx => ?_, hleft⟩
    have hmem := hdata x (by rw [List.flatten_append]; exact List.mem_append_right _ hx)
    have hafter := run_after (lawful_arriving junk) hrest x hx
    rw [deliverable, if_neg (not_last hf), if_pos hf, List.mem_append, List.mem_range'_1] at hmem
    refine hmem.resolve_left fun hin => ?_
    rw [length_pieces] at hafter
    simp only [arriving] at hafter
    omega
  · rintro ⟨hf, hfits, ds, s, hrun, hdata, hleft⟩
    obtain ⟨es, hes, hround⟩ := run_round hkey hpayload hfits junk fuel o (pieces fs)
    rw [hrun] at hround
    refine ⟨es ++ ds, s, hround, fun x hx => ?_, ?_⟩
    · rw [deliverable, if_neg (not_last hf), if_pos hf, List.mem_append]
      rw [List.flatten_append, List.mem_append] at hx
      exact hx.imp (hes x) (hdata x)
    · rw [following, if_neg (not_last hf)]
      exact hleft

theorem onlyData_iff {fs : List Frame} (hfuel : (bytes (pieces fs)).length < fuel) :
    OnlyData junk fuel o fs ↔ Harmless fs := by
  induction fs generalizing fuel o with
  | nil =>
    obtain ⟨n, rfl⟩ : ∃ n, fuel = n + 1 := ⟨fuel - 1, by omega⟩
    exact iff_of_true ⟨[], ⟨[], o⟩, rfl, fun x hx => (List.not_mem_nil hx).elim, rfl⟩ trivial
  | cons f fs ih =>
    have hheader : 2 ≤ f.header.length := by
      rw [f.length_header]
      omega
    rw [pieces_cons, bytes_append, List.length_append, length_pieces] at hfuel
    obtain ⟨n, rfl⟩ : ∃ n, fuel = n + 2 := ⟨fuel - 2, by omega⟩
    rw [Harmless]
    split_ifs with hkey hpayload
    · exact unmasked_iff hkey
    · exact masked_empty_iff hkey hpayload
    · rw [masked_iff hkey hpayload, ih (by omega)]

/-- On any frames TermWebSocket_run ends, or leaves the array. -/
theorem run_frames (junk : ℕ → ℕ → UInt8) (fs : List Frame) :
    ∃ r, (arriving junk).run ((bytes (pieces fs)).length + 1) ⟨pieces fs, 0⟩ = some r :=
  run_ends (lawful_arriving junk) (Nat.lt_succ_self _)

theorem only_data_iff_harmless (junk : ℕ → ℕ → UInt8) (fs : List Frame) :
    OnlyData junk ((bytes (pieces fs)).length + 1) 0 fs ↔ Harmless fs :=
  onlyData_iff (Nat.lt_succ_self _)

/-- The close frame of a browser, with the status 1000 in its payload. -/
def closing : Frame :=
  ⟨0x88, some ⟨greeting.key, greeting.key_length⟩, [⟨[0x02, 0xEA], List.cons_ne_nil _ _⟩],
    by decide⟩

/-- The status is typed into the shell. -/
theorem close_status_delivered :
    ¬∀ junk fs, OnlyData junk ((bytes (pieces fs)).length + 1) 0 fs := by
  intro h
  obtain ⟨ds, s, hrun, hdata, -⟩ := h (fun _ _ => 0) [closing]
  have hrecv := recv_masked (f := closing) rfl (fun _ _ => 0) (pieces []) 0
  obtain ⟨x, hx⟩ := run_delivers hrecv (List.cons_ne_nil _ _) hrun
  have hmem : 6 ∈ deliverable 0 [closing] := hdata (x, 6) hx
  exact absurd hmem (by decide)

end Frames

end ShellInput
