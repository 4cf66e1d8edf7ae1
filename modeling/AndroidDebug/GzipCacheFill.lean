import AndroidDebug.TransitionSystem
import Mathlib.Data.List.Infix
import Mathlib.Data.Nat.Notation
import Mathlib.Logic.Function.Basic
import Mathlib.Data.Fintype.Basic

/-! The filling of one file of the gzip cache by the requests that want it: GzipUtil.gzip and the
two views that call it, one system call a step, any of which may fail, and the requests in any
order. The file is created under its final name, and whether it exists is all a view asks. -/
namespace GzipCacheFill

open TransitionSystem

abbrev Bytes := List UInt8

/-- GZIPOutputStream: each of its calls as the pieces that it writes to the stream below. -/
structure GZIPOutputStream where
  State : Type
  header : List Bytes
  initial : State
  write : State → Bytes → List Bytes × State
  finish : State → List Bytes

def GZIPOutputStream.remaining (g : GZIPOutputStream) : g.State → List Bytes → List Bytes
  | t, [] => g.finish t
  | t, c :: cs => (g.write t c).1 ++ g.remaining (g.write t c).2 cs

/-- A stream comes back from gunzip however the source was cut into chunks. -/
structure Gzip extends GZIPOutputStream where
  gunzip : Bytes → Option Bytes
  gunzip_stream : ∀ cs : List Bytes,
    gunzip (header.flatten ++ (toGZIPOutputStream.remaining initial cs).flatten) = some cs.flatten

inductive View where
  | file | temp
  deriving DecidableEq, Repr

def BUFFER_LENGTH : ℕ := 4096

/-- How far a request is. The cache file is created by `created` on in FileView, and `fresh` if it
was not there before; `writing` holds the place in the file, what the encoder has yet to write and
what is left of the source, with nothing left once `finish` was called. The entity copies the file
while `serving`. -/
inductive Phase (T : Type) where
  | arrived
  | missing
  | created (fresh : Bool)
  | opened (fresh : Bool)
  | writing (pos : ℕ) (todo : List Bytes) (rest : Option (Bytes × T))
  | closing
  | cached
  | serving (body : Bytes)
  | served (body : Bytes)
  | failed

/-- The system calls of a request; `fail` is an IOException of the next one, after `k` bytes of a
write. -/
inductive Act where
  | checkExists
  | createNewFile
  | openFrom
  | openTo
  | write
  | read (n : ℕ)
  | finish
  | leave
  | close
  | openEntity
  | copy (n : ℕ)
  | copied
  | fail (k : ℕ)
  deriving DecidableEq, Repr

/-- A write at `pos`; a gap before it is filled with zeros. -/
def writeAt (pos : ℕ) (piece : Bytes) (file : Bytes) : Bytes :=
  if piece = [] then file
  else file.take pos ++ List.replicate (pos - file.length) 0 ++ piece ++
    file.drop (pos + piece.length)

section Requests

variable (g : Gzip) (view : View)

def startWriting (source : Bytes) : Option Bytes × Phase g.State :=
  (some [], .writing 0 g.header (some (source, g.initial)))

def advance (source : Bytes) (file : Option Bytes) :
    Phase g.State → Act → Option (Option Bytes × Phase g.State)
  | .arrived, .checkExists => some (file, if file.isSome then .cached else .missing)
  | .missing, .createNewFile =>
    if view = .file then some (some (file.getD []), .created file.isNone) else none
  | .created fresh, .openFrom => some (file, .opened fresh)
  | .opened _, .openTo => some (startWriting g source)
  | .missing, .openTo => if view = .temp then some (startWriting g source) else none
  | .writing pos (p :: todo) rest, .write =>
    some (file.map (writeAt pos p), .writing (pos + p.length) todo rest)
  | .writing pos [] (some (left, t)), .read n =>
    if 0 < n ∧ n ≤ BUFFER_LENGTH ∧ n ≤ left.length then
      let (pieces, t) := g.write t (left.take n)
      some (file, .writing pos pieces (some (left.drop n, t)))
    else none
  | .writing pos [] (some ([], t)), .finish => some (file, .writing pos (g.finish t) none)
  | .writing _ [] none, .leave => some (file, .closing)
  | .closing, .close => some (file, .cached)
  | .cached, .openEntity => if file.isSome then some (file, .serving []) else none
  | .serving body, .copy n => do
    let content ← file
    if 0 < n ∧ n ≤ BUFFER_LENGTH ∧ body.length + n ≤ content.length then
      some (file, .serving (body ++ (content.drop body.length).take n))
    else none
  | .serving body, .copied => do
    let content ← file
    if content.length ≤ body.length then some (file, .served body) else none
  | .writing pos todo rest, .fail k =>
    -- Only what finish throws is caught; a page in memory can be read.
    if view = .temp ∧ todo = [] ∧ rest.isSome then none
    else some (file.map (writeAt pos ((todo.headD []).take k)),
      if rest.isSome then .failed else .closing)
  | .arrived, .fail _ | .served _, .fail _ | .failed, .fail _ => none
  | _, .fail _ => some (file, .failed)
  | _, _ => none

structure State (ι : Type) where
  file : Option Bytes
  phase : ι → Phase g.State

variable {ι : Type} [DecidableEq ι] (source : ι → Bytes)

def State.initial : State g ι := ⟨none, fun _ => .arrived⟩

variable {g} in
def State.advance (s : State g ι) (e : ι × Act) : Option (Option Bytes × Phase g.State) :=
  GzipCacheFill.advance g view (source e.1) s.file (s.phase e.1) e.2

def system : System (State g ι) (ι × Act) where
  initial := (· = State.initial g)
  Enabled s e := (s.advance view source e).isSome
  next s e :=
    match s.advance view source e with
    | some (file, p) => ⟨file, Function.update s.phase e.1 p⟩
    | none => s

end Requests

section Damage

variable {T : Type}

def Phase.Unfinished : Phase T → Prop
  | .created fresh | .opened fresh => fresh
  | .writing _ todo rest => todo ≠ [] ∨ rest.isSome
  | _ => False

def Phase.Serving : Phase T → Prop
  | .serving _ => True
  | _ => False

instance : (p : Phase T) → Decidable p.Unfinished
  | .created fresh | .opened fresh => inferInstanceAs (Decidable (fresh = true))
  | .writing _ todo rest => inferInstanceAs (Decidable (todo ≠ [] ∨ rest.isSome = true))
  | .arrived | .missing | .closing | .cached | .serving _ | .served _ | .failed =>
    inferInstanceAs (Decidable False)

instance : (p : Phase T) → Decidable p.Serving
  | .serving _ => inferInstanceAs (Decidable True)
  | .arrived | .missing | .created _ | .opened _ | .writing .. | .closing | .cached | .served _
  | .failed => inferInstanceAs (Decidable False)

variable {g : Gzip} {ι : Type}

/-- No request breaks off between creating the file and having written the whole stream, none
opens the file for writing while another one fills or serves it, and none serves it while another
one fills it. -/
def Orderly (s : State g ι) : ι × Act → Prop
  | (i, .fail _) => ¬(s.phase i).Unfinished
  | (i, .openTo) => ∀ j, j ≠ i → ¬(s.phase j).Unfinished ∧ ¬(s.phase j).Serving
  | (_, .openEntity) => ∀ j, ¬(s.phase j).Unfinished
  | _ => True

instance [DecidableEq ι] [Fintype ι] (s : State g ι) : (e : ι × Act) → Decidable (Orderly s e)
  | (i, .fail _) => inferInstanceAs (Decidable (¬(s.phase i).Unfinished))
  | (i, .openTo) => inferInstanceAs
      (Decidable (∀ j, j ≠ i → ¬(s.phase j).Unfinished ∧ ¬(s.phase j).Serving))
  | (_, .openEntity) => inferInstanceAs (Decidable (∀ j, ¬(s.phase j).Unfinished))
  | (_, .checkExists) | (_, .createNewFile) | (_, .openFrom) | (_, .write) | (_, .read _)
  | (_, .finish) | (_, .leave) | (_, .close) | (_, .copy _) | (_, .copied) =>
    inferInstanceAs (Decidable True)

variable (source : ι → Bytes)

def Complete (g : Gzip) (content : Bytes) : Prop := ∃ i, g.gunzip content = some (source i)

/-- Between two fillings the cache file is absent or complete, and responses come from a
complete file. -/
structure Sound (s : State g ι) : Prop where
  file : (∀ i, ¬(s.phase i).Unfinished) → ∀ content, s.file = some content →
    Complete source g content
  serving : ∀ i body, s.phase i = .serving body → ∃ content, body <+: content ∧
    Complete source g content
  served : ∀ i body, s.phase i = .served body → Complete source g body

end Damage

section Effects

variable {g : Gzip} {view : View} {source : Bytes} {file f : Option Bytes} {p q : Phase g.State}
  {a : Act}

/-- What a call can do to the cache file and to the request that makes it. -/
inductive Effect (g : Gzip) (source : Bytes) (file : Option Bytes) :
    Phase g.State → Act → Option Bytes → Phase g.State → Prop where
  | keeps {p q : Phase g.State} {a : Act} (hp : ¬p.Unfinished) (hq : ¬q.Unfinished)
      (hserving : ¬q.Serving) (hserved : ∀ body, q ≠ .served body) : Effect g source file p a file q
  | creates (h : file = none) :
      Effect g source file .missing .createNewFile (some []) (.created true)
  | opensFrom : Effect g source file (.created true) .openFrom file (.opened true)
  | starts {p : Phase g.State} :
      Effect g source file p .openTo (startWriting g source).1 (startWriting g source).2
  | writes (pos : ℕ) (piece : Bytes) (todo : List Bytes) (rest : Option (Bytes × g.State)) :
      Effect g source file (.writing pos (piece :: todo) rest) .write
        (file.map (writeAt pos piece)) (.writing (pos + piece.length) todo rest)
  | reads (pos n : ℕ) (left : Bytes) (t : g.State) :
      Effect g source file (.writing pos [] (some (left, t))) (.read n) file
        (.writing pos (g.write t (left.take n)).1 (some (left.drop n, (g.write t (left.take n)).2)))
  | finishes (pos : ℕ) (t : g.State) :
      Effect g source file (.writing pos [] (some ([], t))) .finish file
        (.writing pos (g.finish t) none)
  | opens (h : file.isSome) : Effect g source file .cached .openEntity file (.serving [])
  | copies (content body : Bytes) (n : ℕ) (h : file = some content) :
      Effect g source file (.serving body) (.copy n) file
        (.serving (body ++ (content.drop body.length).take n))
  | copied (content body : Bytes) (h : file = some content) (hend : content.length ≤ body.length) :
      Effect g source file (.serving body) .copied file (.served body)
  | breaks {p q : Phase g.State} {f : Option Bytes} (k : ℕ) (hp : p.Unfinished) :
      Effect g source file p (.fail k) f q

/-- In the copy loop and in finish the request writes, reads or stops. -/
theorem writing_effect {pos : ℕ} {todo : List Bytes} {rest : Option (Bytes × g.State)}
    (h : advance g view source file (.writing pos todo rest) a = some (f, q)) :
    Effect g source file (.writing pos todo rest) a f q := by
  cases a with
  | fail k =>
    by_cases hp : (Phase.writing pos todo rest).Unfinished
    · exact .breaks k hp
    · obtain ⟨htodo, hrest⟩ := not_or.mp hp
      obtain rfl := not_not.mp htodo
      obtain rfl := Option.not_isSome_iff_eq_none.mp hrest
      have hfile : file.map (writeAt pos []) = file := by
        cases file <;> rfl
      simp only [advance, Option.isSome_none, Bool.false_eq_true, and_false, if_false,
        List.headD_nil, List.take_nil, hfile, Option.some.injEq, Prod.mk.injEq] at h
      obtain ⟨rfl, rfl⟩ := h
      exact .keeps hp id id fun _ => nofun
  | write =>
    cases todo with
    | nil => simp only [advance, reduceCtorEq] at h
    | cons piece todo =>
      simp only [advance, Option.some.injEq, Prod.mk.injEq] at h
      obtain ⟨rfl, rfl⟩ := h
      exact .writes pos piece todo rest
  | read n =>
    cases todo with
    | cons piece todo => simp only [advance, reduceCtorEq] at h
    | nil =>
      cases rest with
      | none => simp only [advance, reduceCtorEq] at h
      | some r =>
        simp only [advance, Option.ite_none_right_eq_some, Option.some.injEq,
          Prod.mk.injEq] at h
        obtain ⟨-, rfl, rfl⟩ := h
        exact .reads pos n r.1 r.2
  | finish =>
    cases todo with
    | cons piece todo => simp only [advance, reduceCtorEq] at h
    | nil =>
      obtain _ | ⟨_ | ⟨b, left⟩, t⟩ := rest
      · simp only [advance, reduceCtorEq] at h
      · simp only [advance, Option.some.injEq, Prod.mk.injEq] at h
        obtain ⟨rfl, rfl⟩ := h
        exact .finishes pos t
      · simp only [advance, reduceCtorEq] at h
  | leave =>
    cases todo with
    | cons piece todo => simp only [advance, reduceCtorEq] at h
    | nil =>
      cases rest with
      | some r => simp only [advance, reduceCtorEq] at h
      | none =>
        simp only [advance, Option.some.injEq, Prod.mk.injEq] at h
        obtain ⟨rfl, rfl⟩ := h
        exact .keeps (fun hp => hp.elim (fun h => h rfl) nofun) id id fun _ => nofun
  | checkExists | createNewFile | openFrom | openTo | close | openEntity | copy | copied =>
    simp only [advance, reduceCtorEq] at h

theorem advance_effect (h : advance g view source file p a = some (f, q)) :
    Effect g source file p a f q := by
  cases p with
  | arrived =>
    cases a <;> simp only [advance, Option.some.injEq, Prod.mk.injEq, reduceCtorEq] at h
    obtain ⟨rfl, rfl⟩ := h
    cases file with
    | none => exact .keeps id id id fun _ => nofun
    | some content => exact .keeps id id id fun _ => nofun
  | missing =>
    cases a <;> simp only [advance, Option.ite_none_right_eq_some, Option.some.injEq,
      Prod.mk.injEq, reduceCtorEq] at h
    case createNewFile =>
      obtain ⟨-, rfl, rfl⟩ := h
      cases file with
      | none => exact .creates rfl
      | some content => exact .keeps id nofun id fun _ => nofun
    case openTo =>
      obtain ⟨rfl, rfl⟩ := Prod.ext_iff.mp h.2
      exact .starts
    case fail k =>
      obtain ⟨rfl, rfl⟩ := h
      exact .keeps id id id fun _ => nofun
  | created fresh =>
    cases a <;> simp only [advance, Option.some.injEq, Prod.mk.injEq, reduceCtorEq] at h
    case openFrom =>
      obtain ⟨rfl, rfl⟩ := h
      cases fresh with
      | true => exact .opensFrom
      | false => exact .keeps nofun nofun id fun _ => nofun
    case fail k =>
      obtain ⟨rfl, rfl⟩ := h
      cases fresh with
      | true => exact .breaks k rfl
      | false => exact .keeps nofun id id fun _ => nofun
  | opened fresh =>
    cases a <;> simp only [advance, Option.some.injEq, Prod.mk.injEq, reduceCtorEq] at h
    case openTo =>
      obtain ⟨rfl, rfl⟩ := Prod.ext_iff.mp h
      exact .starts
    case fail k =>
      obtain ⟨rfl, rfl⟩ := h
      cases fresh with
      | true => exact .breaks k rfl
      | false => exact .keeps nofun id id fun _ => nofun
  | writing pos todo rest => exact writing_effect h
  | closing =>
    cases a <;> simp only [advance, Option.some.injEq, Prod.mk.injEq, reduceCtorEq] at h
    case close =>
      obtain ⟨rfl, rfl⟩ := h
      exact .keeps id id id fun _ => nofun
    case fail k =>
      obtain ⟨rfl, rfl⟩ := h
      exact .keeps id id id fun _ => nofun
  | cached =>
    cases a <;> simp only [advance, Option.ite_none_right_eq_some, Option.some.injEq,
      Prod.mk.injEq, reduceCtorEq] at h
    case openEntity =>
      obtain ⟨hfile, rfl, rfl⟩ := h
      exact .opens hfile
    case fail k =>
      obtain ⟨rfl, rfl⟩ := h
      exact .keeps id id id fun _ => nofun
  | serving body =>
    cases a <;> simp only [advance, Option.bind_eq_bind, Option.bind_eq_some_iff,
      Option.ite_none_right_eq_some, Option.some.injEq, Prod.mk.injEq, reduceCtorEq] at h
    case copy n =>
      obtain ⟨content, hcontent, -, rfl, rfl⟩ := h
      exact .copies content body n hcontent
    case copied =>
      obtain ⟨content, hcontent, hend, rfl, rfl⟩ := h
      exact .copied content body hcontent hend
    case fail k =>
      obtain ⟨rfl, rfl⟩ := h
      exact .keeps id id id fun _ => nofun
  | served body => cases a <;> simp only [advance, reduceCtorEq] at h
  | failed => cases a <;> simp only [advance, reduceCtorEq] at h

end Effects

section Filling

variable {g : Gzip} {src : Bytes} {file : Option Bytes}

/-- What was put out and what is still to come make the whole stream, in whatever chunks the rest
of the source is read. -/
def Promises (g : Gzip) (src out : Bytes) : Option (Bytes × g.State) → Prop
  | none => g.gunzip out = some src
  | some (left, t) => ∀ cs : List Bytes, cs.flatten = left →
      g.gunzip (out ++ (g.remaining t cs).flatten) = some src

/-- The file holds what the request wrote, which is the beginning of its stream. -/
def Progress (g : Gzip) (src : Bytes) (file : Option Bytes) : Phase g.State → Prop
  | .writing pos todo rest => ∃ content, file = some content ∧ pos = content.length ∧
      Promises g src (content ++ todo.flatten) rest
  | _ => file.isSome

theorem progress_isSome {p : Phase g.State} (h : Progress g src file p) : file.isSome := by
  cases p with
  | writing pos todo rest =>
    obtain ⟨content, rfl, -⟩ := h
    rfl
  | arrived | missing | created | opened | closing | cached | serving | served | failed => exact h

theorem progress_start : Progress g src (startWriting g src).1 (startWriting g src).2 := by
  refine ⟨[], rfl, rfl, ?_⟩
  rintro cs rfl
  exact g.gunzip_stream cs

theorem writeAt_end (content piece : Bytes) :
    writeAt content.length piece content = content ++ piece := by
  rw [writeAt]
  split_ifs with h
  · rw [h, List.append_nil]
  · simp

theorem progress_write {pos : ℕ} {piece : Bytes} {todo : List Bytes}
    {rest : Option (Bytes × g.State)}
    (h : Progress g src file (.writing pos (piece :: todo) rest)) :
    Progress g src (file.map (writeAt pos piece)) (.writing (pos + piece.length) todo rest) := by
  obtain ⟨content, rfl, rfl, hpromises⟩ := h
  refine ⟨content ++ piece, ?_, List.length_append.symm, ?_⟩
  · rw [Option.map_some, writeAt_end]
  · rwa [List.append_assoc, ← List.flatten_cons]

theorem progress_read {pos n : ℕ} {left : Bytes} {t : g.State}
    (h : Progress g src file (.writing pos [] (some (left, t)))) :
    Progress g src file (.writing pos (g.write t (left.take n)).1
      (some (left.drop n, (g.write t (left.take n)).2))) := by
  obtain ⟨content, hfile, hpos, hpromises⟩ := h
  refine ⟨content, hfile, hpos, fun cs hcs => ?_⟩
  have hchunks : (left.take n :: cs).flatten = left := by
    rw [List.flatten_cons, hcs, List.take_append_drop]
  have hall := hpromises _ hchunks
  rwa [List.flatten_nil, List.append_nil, GZIPOutputStream.remaining, List.flatten_append,
    ← List.append_assoc] at hall

theorem progress_finish {pos : ℕ} {t : g.State}
    (h : Progress g src file (.writing pos [] (some ([], t)))) :
    Progress g src file (.writing pos (g.finish t) none) := by
  obtain ⟨content, hfile, hpos, hpromises⟩ := h
  refine ⟨content, hfile, hpos, ?_⟩
  have hall := hpromises [] rfl
  rwa [List.flatten_nil, List.append_nil, GZIPOutputStream.remaining] at hall

theorem progress_done {pos : ℕ} {todo : List Bytes} {rest : Option (Bytes × g.State)}
    (h : Progress g src file (.writing pos todo rest))
    (hdone : ¬(Phase.writing pos todo rest).Unfinished) :
    ∃ content, file = some content ∧ g.gunzip content = some src := by
  obtain ⟨content, hfile, -, hpromises⟩ := h
  obtain ⟨htodo, hrest⟩ := not_or.mp hdone
  obtain rfl := not_not.mp htodo
  obtain rfl := Option.not_isSome_iff_eq_none.mp hrest
  rw [List.flatten_nil, List.append_nil] at hpromises
  exact ⟨content, hfile, hpromises⟩

end Filling

section Invariants

variable {g : Gzip} {view : View} {ι : Type} {source : ι → Bytes} {s : State g ι}
  {i k : ι} {f : Option Bytes} {q : Phase g.State}

/-- No request is filling the file, and the responses under way come from what it holds. -/
structure Settled (source : ι → Bytes) (s : State g ι) : Prop where
  idle : ∀ i, ¬(s.phase i).Unfinished
  file : ∀ content, s.file = some content → Complete source g content
  serving : ∀ i body, s.phase i = .serving body → ∃ content, s.file = some content ∧
    body <+: content

structure Filling (source : ι → Bytes) (s : State g ι) (k : ι) : Prop where
  unfinished : (s.phase k).Unfinished
  alone : ∀ j, j ≠ k → ¬(s.phase j).Unfinished ∧ ¬(s.phase j).Serving
  progress : Progress g (source k) s.file (s.phase k)

structure Invariant (source : ι → Bytes) (s : State g ι) : Prop where
  served : ∀ i body, s.phase i = .served body → Complete source g body
  file : Settled source s ∨ ∃ k, Filling source s k

theorem Invariant.sound (h : Invariant source s) : Sound source s := by
  obtain ⟨hserved, hsettled | ⟨k, hk⟩⟩ := h
  · refine ⟨fun _ => hsettled.file, fun i body hi => ?_, hserved⟩
    obtain ⟨content, hfile, hbody⟩ := hsettled.serving i body hi
    exact ⟨content, hbody, hsettled.file content hfile⟩
  · refine ⟨fun hidle => absurd hk.unfinished (hidle k), fun i body hi => ?_, hserved⟩
    by_cases hik : i = k
    · have hun := hk.unfinished
      rw [← hik, hi] at hun
      exact hun.elim
    · have hnot := (hk.alone i hik).2
      rw [hi] at hnot
      exact absurd trivial hnot

theorem invariant_initial : Invariant source (State.initial g) := by
  refine ⟨fun i body hi => (nomatch hi), .inl ⟨fun i => id, fun content h => (nomatch h),
    fun i body hi => (nomatch hi)⟩⟩

theorem Invariant.filling (h : Invariant source s) (hi : (s.phase i).Unfinished) :
    Filling source s i := by
  obtain ⟨-, hsettled | ⟨k, hk⟩⟩ := h
  · exact absurd hi (hsettled.idle i)
  · obtain rfl | hik := eq_or_ne i k
    · exact hk
    · exact absurd hi (hk.alone i hik).1

theorem Invariant.settled (h : Invariant source s) (hidle : ∀ k, ¬(s.phase k).Unfinished) :
    Settled source s := by
  obtain ⟨-, hsettled | ⟨k, hk⟩⟩ := h
  · exact hsettled
  · exact absurd hk.unfinished (hidle k)

theorem Invariant.idle_of_serving {body : Bytes} (h : Invariant source s)
    (hi : s.phase i = .serving body) (k : ι) : ¬(s.phase k).Unfinished := by
  intro hk
  have hne : i ≠ k := by
    rintro rfl
    rw [hi] at hk
    exact hk.elim
  have hnot := ((h.filling hk).alone i hne).2
  rw [hi] at hnot
  exact hnot trivial

theorem Invariant.free_of_absent (h : Invariant source s) (hnone : s.file = none) (j : ι) :
    ¬(s.phase j).Unfinished ∧ ¬(s.phase j).Serving := by
  have hidle : ∀ k, ¬(s.phase k).Unfinished := by
    intro k hk
    have := progress_isSome (h.filling hk).progress
    rw [hnone] at this
    cases this
  refine ⟨hidle j, fun hj => ?_⟩
  cases hbody : s.phase j with
  | serving body =>
    obtain ⟨content, hcontent, -⟩ := (h.settled hidle).serving j body hbody
    rw [hnone] at hcontent
    cases hcontent
  | _ =>
    rw [hbody] at hj
    exact hj

variable [DecidableEq ι]

def State.set (s : State g ι) (f : Option Bytes) (i : ι) (q : Phase g.State) : State g ι :=
  ⟨f, Function.update s.phase i q⟩

theorem set_phase (s : State g ι) (f : Option Bytes) (i : ι) (q : Phase g.State) :
    (s.set f i q).phase i = q := Function.update_self _ _ _

theorem next_set {a : Act} (h : s.advance view source (i, a) = some (f, q)) :
    (system g view source).next s (i, a) = s.set f i q := by
  simp only [system, h]
  rfl

theorem phase_set {P : ι → Phase g.State → Prop} (hq : P i q)
    (h : ∀ j, j ≠ i → P j (s.phase j)) (j : ι) : P j ((s.set f i q).phase j) := by
  by_cases hj : j = i
  · subst hj
    simpa [State.set] using hq
  · simpa [State.set, hj] using h j hj

theorem served_set (h : ∀ i body, s.phase i = .served body → Complete source g body)
    (hq : ∀ body, q = .served body → Complete source g body) (j : ι) (body : Bytes)
    (hj : (s.set f i q).phase j = .served body) : Complete source g body :=
  phase_set (P := fun _ p => p = .served body → Complete source g body) (hq body)
    (fun j _ => h j body) j hj

/-- A request that is not filling the file moves on beside the others. -/
theorem Invariant.keeps (h : Invariant source s) (hp : ¬(s.phase i).Unfinished)
    (hq : ¬q.Unfinished) (hserving : ¬q.Serving) (hserved : ∀ body, q ≠ .served body) :
    Invariant source (s.set s.file i q) := by
  obtain ⟨hdone, hfile⟩ := h
  refine ⟨served_set hdone fun body hbody => absurd hbody (hserved body), ?_⟩
  obtain hsettled | ⟨k, hk⟩ := hfile
  · refine .inl ⟨phase_set (P := fun _ p => ¬p.Unfinished) hq fun j _ => hsettled.idle j,
      hsettled.file, fun j body => ?_⟩
    refine phase_set (P := fun _ p => p = .serving body → ∃ content, s.file = some content ∧
      body <+: content) (fun hbody => ?_) (fun j _ => hsettled.serving j body) j
    rw [hbody] at hserving
    exact absurd trivial hserving
  · have hki : k ≠ i := by
      rintro rfl
      exact hp hk.unfinished
    have hsame : (s.set s.file i q).phase k = s.phase k := Function.update_of_ne hki _ _
    refine .inr ⟨k, ?_, fun j => ?_, ?_⟩
    · rw [hsame]
      exact hk.unfinished
    · exact phase_set (P := fun j p => j ≠ k → ¬p.Unfinished ∧ ¬p.Serving)
        (fun _ => ⟨hq, hserving⟩) (fun j _ => hk.alone j) j
    · rw [hsame]
      exact hk.progress

theorem Invariant.fills (h : Invariant source s)
    (halone : ∀ j, j ≠ i → ¬(s.phase j).Unfinished ∧ ¬(s.phase j).Serving)
    (hprogress : Progress g (source i) f q) (hserving : ¬q.Serving)
    (hserved : ∀ body, q ≠ .served body)
    (hfile : ¬q.Unfinished → ∃ content, f = some content ∧ g.gunzip content = some (source i)) :
    Invariant source (s.set f i q) := by
  refine ⟨served_set h.served fun body hbody => absurd hbody (hserved body), ?_⟩
  have hsame := set_phase s f i q
  by_cases hq : q.Unfinished
  · refine .inr ⟨i, hsame.symm ▸ hq, fun j => ?_, hsame.symm ▸ hprogress⟩
    exact phase_set (P := fun j p => j ≠ i → ¬p.Unfinished ∧ ¬p.Serving)
      (fun hne => absurd rfl hne) (fun j hj _ => halone j hj) j
  · refine .inl ⟨phase_set (P := fun _ p => ¬p.Unfinished) hq fun j hj => (halone j hj).1,
      fun content hcontent => ?_, fun j body => ?_⟩
    · obtain ⟨content', hf, hgunzip⟩ := hfile hq
      obtain rfl := Option.some.inj (hf.symm.trans hcontent)
      exact ⟨i, hgunzip⟩
    · refine phase_set (P := fun _ p => p = .serving body → ∃ content, f = some content ∧
        body <+: content) (fun hbody => ?_) (fun j hj hbody => ?_) j
      · rw [hbody] at hserving
        exact absurd trivial hserving
      · have hnot := (halone j hj).2
        rw [hbody] at hnot
        exact absurd trivial hnot

theorem Invariant.serves (h : Invariant source s) (hsettled : Settled source s) {content : Bytes}
    (hcontent : s.file = some content) (hq : ¬q.Unfinished)
    (hserving : ∀ body, q = .serving body → body <+: content)
    (hserved : ∀ body, q = .served body → body = content) :
    Invariant source (s.set s.file i q) := by
  refine ⟨served_set h.served fun body hbody => ?_, .inl ⟨?_, hsettled.file, fun j body => ?_⟩⟩
  · rw [hserved body hbody]
    exact hsettled.file content hcontent
  · exact phase_set (P := fun _ p => ¬p.Unfinished) hq fun j _ => hsettled.idle j
  · exact phase_set (P := fun _ p => p = .serving body → ∃ content, s.file = some content ∧
      body <+: content) (fun hbody => ⟨content, hcontent, hserving body hbody⟩)
      (fun j _ => hsettled.serving j body) j

theorem invariant_step (h : Invariant source s) (e : ι × Act)
    (he : (system g view source).Enabled s e) (horderly : Orderly s e) :
    Invariant source ((system g view source).next s e) := by
  obtain ⟨i, a⟩ := e
  obtain ⟨⟨f, q⟩, hadvance⟩ := Option.isSome_iff_exists.mp he
  rw [next_set hadvance]
  have heffect : Effect g (source i) s.file (s.phase i) a f q := advance_effect hadvance
  generalize hphase : s.phase i = p at heffect
  cases heffect with
  | keeps hp hq hserving hserved => exact h.keeps (hphase ▸ hp) hq hserving hserved
  | creates hnone =>
    exact h.fills (fun j _ => h.free_of_absent hnone j) rfl id (fun _ => nofun)
      fun hq => absurd rfl hq
  | opensFrom =>
    have hi := h.filling (i := i) (by rw [hphase]; rfl)
    exact h.fills hi.alone (progress_isSome hi.progress) id (fun _ => nofun) fun hq => absurd rfl hq
  | starts =>
    exact h.fills horderly progress_start id (fun _ => nofun)
      fun hq => absurd (.inr rfl) hq
  | writes pos piece todo rest =>
    have hi := h.filling (i := i) (by rw [hphase]; exact .inl (List.cons_ne_nil _ _))
    have hprogress := progress_write (hphase ▸ hi.progress)
    exact h.fills hi.alone hprogress id (fun _ => nofun) (progress_done hprogress)
  | reads pos n left t =>
    have hi := h.filling (i := i) (by rw [hphase]; exact .inr rfl)
    have hprogress := progress_read (n := n) (hphase ▸ hi.progress)
    exact h.fills hi.alone hprogress id (fun _ => nofun) (progress_done hprogress)
  | finishes pos t =>
    have hi := h.filling (i := i) (by rw [hphase]; exact .inr rfl)
    have hprogress := progress_finish (hphase ▸ hi.progress)
    exact h.fills hi.alone hprogress id (fun _ => nofun) (progress_done hprogress)
  | opens hfile =>
    obtain ⟨content, hcontent⟩ := Option.isSome_iff_exists.mp hfile
    refine h.serves (h.settled horderly) hcontent id (fun body hbody => ?_) fun _ => nofun
    obtain rfl := Phase.serving.inj hbody
    exact List.nil_prefix
  | copies content body n hcontent =>
    have hsettled := h.settled (h.idle_of_serving hphase)
    refine h.serves hsettled hcontent id (fun body' hbody => ?_) fun _ => nofun
    obtain rfl := Phase.serving.inj hbody
    obtain ⟨content', hcontent', later, rfl⟩ := hsettled.serving i body hphase
    obtain rfl := Option.some.inj (hcontent.symm.trans hcontent')
    rw [List.drop_left, List.prefix_append_right_inj]
    exact List.take_prefix n later
  | copied content body hcontent hend =>
    have hsettled := h.settled (h.idle_of_serving hphase)
    refine h.serves hsettled hcontent id (fun _ => nofun) fun body' hbody => ?_
    obtain rfl := Phase.served.inj hbody
    obtain ⟨content', hcontent', hbody'⟩ := hsettled.serving i body hphase
    obtain rfl := Option.some.inj (hcontent.symm.trans hcontent')
    exact hbody'.eq_of_length_le hend
  | breaks k hp =>
    rw [← hphase] at hp
    exact absurd hp horderly

/-- In an orderly run the cache file is absent or complete whenever it is not being filled, and
every response is the whole stream. -/
theorem orderly_sound (g : Gzip) (view : View) (source : ι → Bytes) {s : State g ι}
    (h : ReachableWhere (system g view source) Orderly s) : Sound source s := by
  have hinvariant : Invariant source s := by
    refine h.invariant (I := Invariant source) ?_ fun _ e => ?_
    · rintro _ rfl
      exact invariant_initial
    · exact fun hi he horderly => invariant_step hi e he horderly
  exact hinvariant.sound

theorem run_call {t : State g ι} {a : Act} (hadvance : s.advance view source (i, a) = some (f, q))
    (hrun : Execution (system g view source) (s.set f i q) t) :
    Execution (system g view source) s t := by
  rw [← next_set hadvance] at hrun
  exact .head (Option.isSome_iff_exists.mpr ⟨_, hadvance⟩) trivial hrun

theorem exists_copied (view : View) (source : ι → Bytes) {body later : Bytes}
    (hfile : s.file = some (body ++ later)) (hi : s.phase i = .serving body) :
    ∃ t, Execution (system g view source) s t ∧ t.phase i = .served (body ++ later) := by
  induction later generalizing s body with
  | nil =>
    rw [List.append_nil] at hfile ⊢
    have hcall : s.advance view source (i, .copied) = some (s.file, .served body) := by
      simp [State.advance, GzipCacheFill.advance, hi, hfile]
    exact ⟨_, run_call hcall (.refl _), set_phase s s.file i _⟩
  | cons b later ih =>
    have hcall : s.advance view source (i, .copy 1) = some (s.file, .serving (body ++ [b])) := by
      simp [State.advance, GzipCacheFill.advance, hi, hfile, BUFFER_LENGTH]
    have hfile' : (s.set s.file i (.serving (body ++ [b]))).file =
        some (body ++ [b] ++ later) := by
      rw [List.append_assoc]
      exact hfile
    obtain ⟨t, hrun, ht⟩ := ih hfile' (set_phase s s.file i _)
    refine ⟨t, run_call hcall hrun, ?_⟩
    rw [ht, List.append_assoc]
    rfl

theorem exists_served (view : View) (source : ι → Bytes) {content : Bytes}
    (hfile : s.file = some content) (hi : s.phase i = .arrived) :
    ∃ t, Execution (system g view source) s t ∧ t.phase i = .served content := by
  have hcheck : s.advance view source (i, .checkExists) = some (s.file, .cached) := by
    simp [State.advance, GzipCacheFill.advance, hi, hfile]
  set u := s.set s.file i .cached with hu
  have hopen : u.advance view source (i, .openEntity) = some (u.file, .serving []) := by
    simp [State.advance, GzipCacheFill.advance, hu, State.set, hfile]
  have hrest : (u.set u.file i (.serving [])).file = some ([] ++ content) := hfile
  obtain ⟨t, hrun, ht⟩ := exists_copied view source hrest (set_phase u u.file i _)
  exact ⟨t, run_call hcheck (run_call hopen hrun), ht⟩

/-- So an incomplete file does its damage, however long ago it was left behind. -/
theorem incomplete_served (view : View) {content : Bytes} (hfile : s.file = some content)
    (hbad : ¬Complete source g content) (hi : s.phase i = .arrived) :
    ∃ t, Execution (system g view source) s t ∧ ¬Sound source t := by
  obtain ⟨t, hrun, ht⟩ := exists_served view source hfile hi
  exact ⟨t, hrun, fun hsound => hbad (hsound.served i content ht)⟩

end Invariants

section Traces

/-- A container that marks every byte and the end. -/
def unpack : Bytes → Option Bytes
  | [0] => some []
  | 1 :: b :: bs => (unpack bs).map (b :: ·)
  | _ => none

theorem unpack_marked (data : Bytes) :
    unpack (data.flatMap (fun b => [1, b]) ++ [0]) = some data := by
  induction data with
  | nil => rfl
  | cons b data ih =>
    rw [List.flatMap_cons, List.append_assoc]
    simp only [List.cons_append, List.nil_append, unpack, ih, Option.map_some]

def marking : GZIPOutputStream where
  State := Unit
  header := [[0x1f]]
  initial := ()
  write _ chunk := ([chunk.flatMap fun b => [1, b]], ())
  finish _ := [[0]]

theorem remaining_marking (t : marking.State) (cs : List Bytes) :
    (marking.remaining t cs).flatten = cs.flatten.flatMap (fun b => [1, b]) ++ [0] := by
  induction cs generalizing t with
  | nil => rfl
  | cons c cs ih =>
    rw [GZIPOutputStream.remaining, List.flatten_append, ih, List.flatten_cons,
      List.flatMap_append, List.append_assoc]
    simp [marking]

def marked : Gzip where
  toGZIPOutputStream := marking
  gunzip
    | 0x1f :: bs => unpack bs
    | _ => none
  gunzip_stream cs := by
    rw [remaining_marking marking.initial cs]
    exact unpack_marked cs.flatten

instance (g : Gzip) (view : View) {ι : Type} [DecidableEq ι] (source : ι → Bytes) (s : State g ι)
    (e : ι × Act) : Decidable ((system g view source).Enabled s e) :=
  inferInstanceAs (Decidable ((s.advance view source e).isSome = true))

/-- One request fills the cache with a page of one byte, and both are answered. -/
def answered : List (Fin 2 × Act) :=
  [(0, .checkExists), (0, .createNewFile), (0, .openFrom), (0, .openTo), (0, .write),
    (0, .read 1), (0, .write), (0, .finish), (0, .write), (0, .leave), (0, .close),
    (1, .checkExists), (1, .openEntity), (0, .openEntity), (1, .copy 4), (1, .copied),
    (0, .copy 4), (0, .copied)]

theorem orderly_sound_answered :
    Sound (fun _ => [7]) (runTrace (system marked .file fun _ => [7]) (State.initial marked)
      answered) :=
  orderly_sound marked .file _ (validTrace_reachable rfl (by decide +kernel))

/-- Reading the source fails in the first request, and the second one finds a file. -/
def brokenOff : List (Fin 2 × Act) :=
  [(0, .checkExists), (0, .createNewFile), (0, .openFrom), (0, .openTo), (0, .write),
    (0, .fail 0), (1, .checkExists), (1, .openEntity), (1, .copy 1), (1, .copied)]

theorem header_served : ¬∀ (g : Gzip) (view : View) (source : Fin 2 → Bytes) (s : State g (Fin 2)),
    Reachable (system g view source) s → Sound source s := by
  intro h
  have hvalid : ValidTrace (system marked .file fun _ => [7]) Unrestricted
    (State.initial marked) brokenOff := by decide +kernel
  obtain ⟨i, hi⟩ := (h marked .file _ _ (validTrace_reachable rfl hvalid)).served 1 [0x1f] rfl
  have hnone : marked.gunzip [0x1f] = none := rfl
  rw [hnone] at hi
  cases hi

end Traces

end GzipCacheFill
