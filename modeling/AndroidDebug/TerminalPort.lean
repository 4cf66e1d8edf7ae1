import AndroidDebug.WebSocketSessions
import Mathlib.Algebra.Group.Nat.Defs
import Mathlib.Data.Nat.Find

/-! The port of the terminal's server socket. passive_server counts an int upwards while bind
gets its low sixteen bits; the result is what DatabaseHandler.openTerminalResponse reports. -/
namespace TerminalPort

open WebSocketSessions (ERROR_PORT default_port)

/-- What the calls of passive_server meet. A bind to port 0 that succeeds takes a port the
kernel picks. -/
structure Environment where
  setsockopt_ok : Bool
  bind_ok : ℕ → Bool
  assigned : ℕ
  listen_ok : Bool
  assigned_range : 1 ≤ assigned ∧ assigned ≤ 65535

structure Socket where
  opened : Bool
  bound : Option ℕ
  listening : Bool
  deriving DecidableEq, Repr

def fresh : Socket := ⟨true, none, false⟩
def Socket.close (s : Socket) : Socket := { s with opened := false, listening := false }
def Socket.listen (s : Socket) : Socket := { s with listening := true }

def sin_port (port : ℤ) : ℕ := (port % 65536).toNat

def bindTo (env : Environment) (p : ℕ) (s : Socket) : Socket :=
  { s with bound := some (if p = 0 then env.assigned else p) }

/-- The do-while loop; `none` when the fuel is used up. -/
def bindLoop (env : Environment) : ℕ → ℤ → Socket → Option (ℤ × Socket)
  | 0, _, _ => none
  | fuel + 1, port, s =>
    let port := Int.bmod (port + 1) (2 ^ 32)
    if env.bind_ok (sin_port port) then some (port, bindTo env (sin_port port) s)
    else bindLoop env fuel port s

/-- A descriptor of -1 is one on which setsockopt fails. -/
def passive_server (env : Environment) (fuel : ℕ) (server_sockfd : Socket) :
    Option (ℤ × Socket) :=
  if env.setsockopt_ok then do
    let (port, s) ← bindLoop env fuel default_port server_sockfd
    if env.listen_ok then some (port, s.listen)
    else some (default_port, s.close)
  else some (ERROR_PORT, server_sockfd.close)

structure TerminalResponse where
  isSuccessful : Bool := false
  error : Option String := none
  port : ℤ := 0
  deriving DecidableEq, Repr

def openTerminalResponse (env : Environment) (fuel : ℕ) : Option (TerminalResponse × Socket) := do
  let (port, s) ← passive_server env fuel fresh
  if port = -999 then some ({ isSuccessful := false, error := some "Unknown error" }, s)
  else some ({ isSuccessful := true, port := port }, s)

/-- A client that connects to `port` reaches the socket. -/
structure Usable (port : ℤ) (s : Socket) : Prop where
  range : 1 ≤ port ∧ port ≤ 65535
  opened : s.opened = true
  bound : s.bound = some port.toNat
  listening : s.listening = true

/-- One of the three calls fails, bind for every port there is. -/
def Fails (env : Environment) : Prop :=
  env.setsockopt_ok = false ∨ env.listen_ok = false ∨
    ∀ p, 1 ≤ p → p ≤ 65535 → env.bind_ok p = false

structure PortReported (env : Environment) : Prop where
  returns : ∃ fuel r, passive_server env fuel fresh = some r
  result : ∀ fuel port s, passive_server env fuel fresh = some (port, s) →
    port = ERROR_PORT ∨ Usable port s
  failure : Fails env → ∀ fuel port s, passive_server env fuel fresh = some (port, s) →
    port = ERROR_PORT ∧ s.opened = false
  reported : ∀ fuel response s, openTerminalResponse env fuel = some (response, s) →
    response.isSuccessful = true → Usable response.port s

variable {env : Environment} {s : Socket}

theorem sin_port_natCast (p : ℕ) : sin_port p = p % 65536 := by
  unfold sin_port
  omega

theorem bindLoop_succ {p : ℕ} (hp : p + 1 < 2 ^ 31) (fuel : ℕ) :
    bindLoop env (fuel + 1) p s =
      if env.bind_ok ((p + 1) % 65536) then
        some (((p + 1 : ℕ) : ℤ), bindTo env ((p + 1) % 65536) s)
      else bindLoop env fuel (p + 1 : ℕ) s := by
  have hwrap : Int.bmod ((p : ℤ) + 1) (2 ^ 32) = (p + 1 : ℕ) := by
    rw [Int.bmod_eq_of_le (by omega) (by omega)]
    omega
  rw [bindLoop, hwrap, sin_port_natCast]

/-- The loop stops at the first number whose low bits can be bound. -/
theorem bindLoop_first {k fuel p : ℕ} (hk : p + 1 + k < 2 ^ 31)
    (hbefore : ∀ i < k, env.bind_ok ((p + 1 + i) % 65536) = false)
    (hfree : env.bind_ok ((p + 1 + k) % 65536) = true) (hfuel : k < fuel) :
    bindLoop env fuel p s =
      some (((p + 1 + k : ℕ) : ℤ), bindTo env ((p + 1 + k) % 65536) s) := by
  induction k generalizing p fuel with
  | zero =>
    obtain ⟨fuel, rfl⟩ : ∃ f, fuel = f + 1 := ⟨fuel - 1, by omega⟩
    rw [bindLoop_succ (by omega), if_pos hfree]
  | succ k ih =>
    obtain ⟨fuel, rfl⟩ : ∃ f, fuel = f + 1 := ⟨fuel - 1, by omega⟩
    have hshift : ∀ i, p + 1 + (i + 1) = p + 1 + 1 + i := by
      intro i
      omega
    have hfirst : ¬env.bind_ok ((p + 1) % 65536) = true := by
      rw [hbefore 0 (by omega)]
      decide
    rw [bindLoop_succ (by omega), if_neg hfirst, hshift]
    apply ih (by omega)
    · intro i hi
      rw [← hshift]
      exact hbefore (i + 1) (by omega)
    · rw [← hshift]
      exact hfree
    · omega

theorem bindLoop_never (h : ∀ p < 65536, env.bind_ok p = false) (fuel : ℕ) (port : ℤ) :
    bindLoop env fuel port s = none := by
  induction fuel generalizing port with
  | zero => rfl
  | succ fuel ih =>
    have hlt : sin_port (Int.bmod (port + 1) (2 ^ 32)) < 65536 := by
      unfold sin_port
      omega
    rw [bindLoop, h _ hlt, if_neg (by decide), ih]

theorem bindLoop_mono {fuel d : ℕ} {port : ℤ} {r : ℤ × Socket}
    (h : bindLoop env fuel port s = some r) : bindLoop env (fuel + d) port s = some r := by
  induction fuel generalizing port with
  | zero => cases h
  | succ fuel ih =>
    rw [Nat.add_right_comm, bindLoop]
    rw [bindLoop] at h
    split at h
    · rename_i hfree
      rw [if_pos hfree]
      exact h
    · rename_i hbusy
      rw [if_neg hbusy]
      exact ih h

/-- The first attempt that succeeds, counted from 11001, over one round of the port numbers. -/
theorem first_attempt (env : Environment) :
    (∀ p < 65536, env.bind_ok p = false) ∨
      ∃ k < 65536, env.bind_ok ((11000 + 1 + k) % 65536) = true ∧
        ∀ i < k, env.bind_ok ((11000 + 1 + i) % 65536) = false := by
  by_cases h : ∃ k, k < 65536 ∧ env.bind_ok ((11000 + 1 + k) % 65536) = true
  · obtain ⟨hk, hfree⟩ := Nat.find_spec h
    refine .inr ⟨Nat.find h, hk, hfree, ?_⟩
    intro i hi
    by_contra hbusy
    exact Nat.find_min h hi ⟨by omega, by simpa using hbusy⟩
  · left
    intro p hp
    by_contra hfree
    apply h
    refine ⟨(p + 54535) % 65536, by omega, ?_⟩
    have hround : (11000 + 1 + (p + 54535) % 65536) % 65536 = p := by omega
    rw [hround]
    simpa using hfree

/-- The socket after the attempt with number `k` succeeded. -/
def boundAt (env : Environment) (k : ℕ) : Socket :=
  bindTo env ((11000 + 1 + k) % 65536) fresh

/-- The loop of passive_server returns with every fuel from some on, and always with the first
attempt that succeeds. -/
structure Attempted (env : Environment) (k : ℕ) : Prop where
  busy : ∀ i < k, env.bind_ok ((11000 + 1 + i) % 65536) = false
  free : env.bind_ok ((11000 + 1 + k) % 65536) = true
  returns : bindLoop env (k + 1) default_port fresh =
    some (((11000 + 1 + k : ℕ) : ℤ), boundAt env k)

theorem Attempted.unique {k fuel : ℕ} {r : ℤ × Socket} (h : Attempted env k)
    (hr : bindLoop env fuel default_port fresh = some r) :
    r = (((11000 + 1 + k : ℕ) : ℤ), boundAt env k) := by
  have hlong : bindLoop env (fuel + (k + 1)) default_port fresh = some r := bindLoop_mono hr
  rw [Nat.add_comm, bindLoop_mono h.returns] at hlong
  exact (Option.some.inj hlong).symm

theorem bindLoop_outcome (env : Environment) :
    (∀ p < 65536, env.bind_ok p = false) ∨ ∃ k, Attempted env k := by
  rcases first_attempt env with hnone | ⟨k, hk, hfree, hbusy⟩
  · exact .inl hnone
  · have hreturns : bindLoop env (k + 1) (11000 : ℕ) fresh = _ :=
      bindLoop_first (by omega) hbusy hfree (Nat.lt_succ_self k)
    exact .inr ⟨k, hbusy, hfree, hreturns⟩

theorem passive_server_failed (h : env.setsockopt_ok = false) (fuel : ℕ) :
    passive_server env fuel fresh = some (ERROR_PORT, fresh.close) := by
  simp [passive_server, h]

theorem passive_server_bound (h : env.setsockopt_ok = true) (fuel : ℕ) :
    passive_server env fuel fresh =
      (bindLoop env fuel default_port fresh).map fun (port, s) =>
        if env.listen_ok then (port, s.listen) else (default_port, s.close) := by
  unfold passive_server
  rw [if_pos h]
  cases bindLoop env fuel default_port fresh with
  | none => rfl
  | some r => cases hl : env.listen_ok <;> rfl

theorem Attempted.result {k fuel : ℕ} {r : ℤ × Socket} (ha : Attempted env k)
    (h : env.setsockopt_ok = true) (hr : passive_server env fuel fresh = some r) :
    r = if env.listen_ok then (((11000 + 1 + k : ℕ) : ℤ), (boundAt env k).listen)
      else (default_port, (boundAt env k).close) := by
  rw [passive_server_bound h] at hr
  obtain ⟨b, hb, rfl⟩ := Option.map_eq_some_iff.mp hr
  rw [ha.unique hb]

theorem usable_boundAt {k : ℕ} (hk : 11000 + 1 + k ≤ 65535) :
    Usable ((11000 + 1 + k : ℕ) : ℤ) (boundAt env k).listen where
  range := by omega
  opened := rfl
  bound := by
    have hmod : (11000 + 1 + k) % 65536 = 11000 + 1 + k := Nat.mod_eq_of_lt (by omega)
    unfold boundAt bindTo Socket.listen
    rw [hmod, if_neg (by omega), Int.toNat_natCast]
  listening := rfl

theorem Attempted.le {k p : ℕ} (ha : Attempted env k) (hp : 11001 ≤ p) (hp' : p ≤ 65535)
    (hfree : env.bind_ok p = true) : 11000 + 1 + k ≤ p := by
  by_contra hlt
  have hbusy := ha.busy (p - 11001) (by omega)
  have hround : (11000 + 1 + (p - 11001)) % 65536 = p := by omega
  rw [hround, hfree] at hbusy
  cases hbusy

theorem openTerminalResponse_some {fuel : ℕ} {response : TerminalResponse} {s : Socket}
    (h : openTerminalResponse env fuel = some (response, s)) (hs : response.isSuccessful = true) :
    response.port ≠ ERROR_PORT ∧ passive_server env fuel fresh = some (response.port, s) := by
  obtain ⟨⟨port, t⟩, hp, h⟩ := Option.bind_eq_some_iff.mp h
  rw [hp]
  dsimp only at h
  split at h
  · obtain ⟨rfl, -⟩ := Prod.ext_iff.mp (Option.some.inj h)
    cases hs
  · rename_i hport
    obtain ⟨rfl, rfl⟩ := Prod.ext_iff.mp (Option.some.inj h)
    exact ⟨hport, rfl⟩

/-- It is enough that every result is the error with the socket closed, or a usable port in an
environment where nothing fails. -/
theorem portReported_of (hret : ∃ fuel r, passive_server env fuel fresh = some r)
    (h : ∀ fuel port s, passive_server env fuel fresh = some (port, s) →
      port = ERROR_PORT ∧ s.opened = false ∨ ¬Fails env ∧ Usable port s) : PortReported env where
  returns := hret
  result fuel port s hr := (h fuel port s hr).imp And.left And.right
  failure hf fuel port s hr := (h fuel port s hr).resolve_right fun hu => hu.1 hf
  reported fuel response s hr hs := by
    obtain ⟨hport, hr⟩ := openTerminalResponse_some hr hs
    rcases h fuel _ s hr with ⟨herr, -⟩ | ⟨-, hu⟩
    · exact absurd herr hport
    · exact hu

theorem portReported_failed (h : env.setsockopt_ok = false) : PortReported env := by
  apply portReported_of ⟨0, _, passive_server_failed h 0⟩
  intro fuel port s hr
  rw [passive_server_failed h] at hr
  cases hr
  exact .inl ⟨rfl, rfl⟩

theorem portReported_bound {p : ℕ} (hset : env.setsockopt_ok = true) (hl : env.listen_ok = true)
    (hp : 11001 ≤ p) (hp' : p ≤ 65535) (hfree : env.bind_ok p = true) : PortReported env := by
  rcases bindLoop_outcome env with hnone | ⟨k, ha⟩
  · rw [hnone p (by omega)] at hfree
    cases hfree
  have hk := ha.le hp hp' hfree
  apply portReported_of
  · refine ⟨k + 1, (((11000 + 1 + k : ℕ) : ℤ), (boundAt env k).listen), ?_⟩
    rw [passive_server_bound hset, ha.returns]
    simp [hl]
  · intro fuel port s hr
    have hres := ha.result hset hr
    rw [if_pos hl] at hres
    cases hres
    refine .inr ⟨?_, usable_boundAt (by omega)⟩
    rintro (h | h | h)
    · rw [hset] at h
      cases h
    · rw [hl] at h
      cases h
    · rw [h p (by omega) hp'] at hfree
      cases hfree

/-- The port reported is right when the options cannot be set, and otherwise when a port above
11000 can be bound and listened on. -/
theorem portReported_iff (env : Environment) :
    PortReported env ↔ env.setsockopt_ok = false ∨
      env.listen_ok = true ∧ ∃ p, 11001 ≤ p ∧ p ≤ 65535 ∧ env.bind_ok p = true := by
  by_cases hset : env.setsockopt_ok = false
  · exact iff_of_true (portReported_failed hset) (.inl hset)
  have hset' : env.setsockopt_ok = true := by simpa using hset
  constructor
  · intro h
    obtain ⟨fuel, r, hr⟩ := h.returns
    rcases bindLoop_outcome env with hnone | ⟨k, ha⟩
    · rw [passive_server_bound hset', bindLoop_never hnone] at hr
      cases hr
    have hres := ha.result hset' hr
    by_cases hl : env.listen_ok = true
    · rw [if_pos hl] at hres
      rw [hres] at hr
      rcases h.result _ _ _ hr with herr | husable
      · unfold ERROR_PORT at herr
        omega
      · have hrange := husable.range.2
        have hmod : (11000 + 1 + k) % 65536 = 11000 + 1 + k := Nat.mod_eq_of_lt (by omega)
        exact .inr ⟨hl, 11000 + 1 + k, by omega, by omega, hmod ▸ ha.free⟩
    · rw [if_neg hl] at hres
      rw [hres] at hr
      exact absurd (h.failure (.inr (.inl (by simpa using hl))) _ _ _ hr).1 (by decide)
  · rintro (hfail | ⟨hl, p, hp, hp', hfree⟩)
    · exact absurd hfail hset
    · exact portReported_bound hset' hl hp hp' hfree

/-- Nothing is in the way but listen, and port 11000 is reported without a socket. -/
theorem listen_failure_reported : ¬∀ env, PortReported env := by
  intro h
  have hr := (h ⟨true, fun _ => true, 40000, false, by decide⟩).failure (.inr (.inl rfl)) 1
    default_port (boundAt ⟨true, fun _ => true, 40000, false, by decide⟩ 0).close rfl
  exact absurd hr.1 (by decide)

/-- Every result is one of the outcomes that the terminal's sessions start from. -/
theorem passive_server_outcome {fuel : ℕ} {port : ℤ} {s : Socket}
    (h : passive_server env fuel fresh = some (port, s)) :
    ∃ o : WebSocketSessions.Outcome, (s.listening = true ↔ ∃ p, o = .listening p) ∧
      ∀ t, (WebSocketSessions.passive_server t o).2 = port := by
  by_cases hset : env.setsockopt_ok = true
  · rcases bindLoop_outcome env with hnone | ⟨k, ha⟩
    · rw [passive_server_bound hset, bindLoop_never hnone] at h
      cases h
    have hres := ha.result hset h
    by_cases hl : env.listen_ok = true
    · rw [if_pos hl] at hres
      cases hres
      exact ⟨.listening (11000 + 1 + k), by simp [Socket.listen], fun _ => rfl⟩
    · rw [if_neg hl] at hres
      cases hres
      exact ⟨.listenFails, by simp [Socket.close], fun _ => rfl⟩
  · rw [passive_server_failed (by simpa using hset)] at h
    cases h
    exact ⟨.setsockoptFails, by simp [Socket.close], fun _ => rfl⟩

end TerminalPort
