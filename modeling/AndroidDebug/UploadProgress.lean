import AndroidDebug.TransitionSystem
import AndroidDebug.FileBrowser
import Mathlib.Logic.Function.Basic

/-! The progress of uploads: one map for all of them, which a page polls and other pages clear. -/
namespace UploadProgress

open TransitionSystem JavaText JavaFile

abbrev ProgressMap := JString → Option Int32

def Progress.update (m : ProgressMap) (id : JString) (progress : Int32) : ProgressMap :=
  let put := Function.update m id (some progress)
  if progress = 100 then Function.update put id none else put

def Progress.get (m : ProgressMap) (id : JString) : Int32 := (m id).getD (-1)

def text (progress : Int32) : String := longToString progress.toInt64

def Progress.clear : ProgressMap := fun _ => none

inductive Response where
  | badRequest
  | ok (entity : String)
  deriving DecidableEq, Repr

def HttpProgressHandler.handle (m : ProgressMap) : Option JString → Response
  | none => .badRequest
  | some id => .ok (text (Progress.get m id))

/-- Java's cast from long to int of a quotient of longs; `none` is the exception of a division by
zero. -/
def percentage (pBytesRead pContentLength : Int64) : Option Int32 :=
  if pContentLength = 0 then none else some (pBytesRead * 100 / pContentLength).toInt32

/-- Whether a request for a page or a file comes to the end of the handler, where the progress is
cleared. An exception while the answer is rendered comes before that. -/
def HttpFBHandler.clears (d : Device) (webRoot uri : JString) (rendered : Bool) : Bool :=
  match FileBrowser.getTarget d uri true with
  | none => false
  | some target =>
    if FileBrowser.isIndex target then rendered
    else if ¬FileBrowser.SERV_ROOT_DIR d <+: target ∧ ¬webRoot <+: target then false
    else rendered

inductive Phase where
  | waiting
  | running
  | returned
  deriving DecidableEq, Repr

/-- What the handler of one upload has done; `reported` is its last percentage. -/
structure Upload where
  phase : Phase
  contentLength : Int64
  bytesRead : Int64
  reported : Option Int32
  deriving DecidableEq, Repr

structure State where
  progressMap : ProgressMap
  uploads : JString → Upload

def initial : State := ⟨Progress.clear, fun _ => ⟨.waiting, 0, 0, none⟩⟩

/-- `update` is a call of the listener and `finish` the end of the handler, after an exception as
after success. The files of the device may differ from request to request. -/
inductive Event where
  | start (id : JString) (contentLength : Int64)
  | update (id : JString) (pBytesRead : Int64)
  | finish (id : JString)
  | poll (id : Option JString)
  | browse (d : Device) (uri : JString) (rendered : Bool)
  | terminal (rendered : Bool)

def Enabled (s : State) : Event → Prop
  | .start id _ => (s.uploads id).phase = .waiting
  | .update id b => (s.uploads id).phase = .running ∧ (s.uploads id).bytesRead ≤ b ∧
      ((s.uploads id).contentLength ≠ -1 → b ≤ (s.uploads id).contentLength)
  | .finish id => (s.uploads id).phase = .running
  | _ => True

def State.setUpload (s : State) (id : JString) (u : Upload) : State :=
  { s with uploads := Function.update s.uploads id u }

/-- A division by zero ends the upload as any exception does. -/
def MyProgressListener.update (s : State) (mId : JString) (b : Int64) : State :=
  let u := s.uploads mId
  if u.contentLength = -1 then s.setUpload mId { u with bytesRead := b }
  else
    match percentage b u.contentLength with
    | none => s.setUpload mId { u with phase := .returned }
    | some progress =>
      { s.setUpload mId { u with bytesRead := b, reported := some progress } with
        progressMap := Progress.update s.progressMap mId progress }

variable (webRoot : JString)

def clears : Event → Bool
  | .browse d uri rendered => HttpFBHandler.clears d webRoot uri rendered
  | .terminal rendered => rendered
  | _ => false

def next (s : State) : Event → State
  | .start id length => s.setUpload id ⟨.running, length, 0, none⟩
  | .update id b => MyProgressListener.update s id b
  | .finish id => s.setUpload id { s.uploads id with phase := .returned }
  | e => if clears webRoot e then { s with progressMap := Progress.clear } else s

def system : System State Event := ⟨(· = initial), Enabled, next webRoot⟩

instance (s : State) : (e : Event) → Decidable (Enabled s e)
  | .start id _ => inferInstanceAs (Decidable ((s.uploads id).phase = .waiting))
  | .update id b => inferInstanceAs (Decidable ((s.uploads id).phase = .running ∧
      (s.uploads id).bytesRead ≤ b ∧
      ((s.uploads id).contentLength ≠ -1 → b ≤ (s.uploads id).contentLength)))
  | .finish id => inferInstanceAs (Decidable ((s.uploads id).phase = .running))
  | .poll _ | .browse .. | .terminal _ => inferInstanceAs (Decidable True)

instance (s : State) (e : Event) : Decidable ((system webRoot).Enabled s e) :=
  inferInstanceAs (Decidable (Enabled s e))

/-- The upload is under way and its last report is below a hundred. -/
def Upload.Shows (u : Upload) (p : Int32) : Prop :=
  u.phase = .running ∧ u.reported = some p ∧ p < 100

def ShowsPercentage (s : State) : Prop :=
  ∀ id p, (s.uploads id).Shows p →
    HttpProgressHandler.handle s.progressMap (some id) = .ok (text p)

def ForgetsReturned (s : State) : Prop :=
  ∀ id, (s.uploads id).phase = .returned →
    HttpProgressHandler.handle s.progressMap (some id) = .ok (text (-1))

structure PollsRight (s : State) : Prop where
  running : ShowsPercentage s
  returned : ForgetsReturned s

/-- An upload ends with nothing reported or with a hundred, and no page is rendered while one
shows a percentage. -/
def Undisturbed (s : State) : Event → Prop
  | .finish id => (s.uploads id).reported = none ∨ (s.uploads id).reported = some 100
  | e => clears webRoot e → ∀ id p, ¬(s.uploads id).Shows p

variable {webRoot}

theorem update_other {m : ProgressMap} {id other : JString} (p : Int32) (h : other ≠ id) :
    Progress.update m id p other = m other := by
  unfold Progress.update
  split <;> simp [h]

theorem update_same (m : ProgressMap) (id : JString) (p : Int32) :
    Progress.update m id p id = if p = 100 then none else some p := by
  unfold Progress.update
  split <;> simp_all

/-- How the entry of an id follows its upload. -/
structure Follows (entry : Option Int32) (u : Upload) : Prop where
  waiting : u.phase = .waiting → entry = none
  running : u.phase = .running → u.reported = none ∨ u.reported = some 100 → entry = none
  shows : ∀ p, u.Shows p → entry = some p
  returned : u.phase = .returned → entry = none
  divided : u.contentLength = 0 → u.reported = none

def Tracked (s : State) : Prop := ∀ id, Follows (s.progressMap id) (s.uploads id)

theorem pollsRight_of_tracked {s : State} (h : Tracked s) : PollsRight s := by
  constructor
  · intro id p hshows
    simp [HttpProgressHandler.handle, Progress.get, (h id).shows p hshows]
  · intro id hreturned
    simp [HttpProgressHandler.handle, Progress.get, (h id).returned hreturned]

theorem tracked_initial : Tracked initial := by
  intro id
  constructor <;> simp [initial, Progress.clear, Upload.Shows]

/-- A step that touches one upload at most, its entry with it. -/
theorem tracked_of_one {s t : State} (id : JString) (h : Tracked s)
    (hmap : ∀ other, other ≠ id → t.progressMap other = s.progressMap other)
    (huploads : ∀ other, other ≠ id → t.uploads other = s.uploads other)
    (hid : Follows (t.progressMap id) (t.uploads id)) : Tracked t := by
  intro other
  by_cases hother : other = id
  · rwa [hother]
  · rw [hmap other hother, huploads other hother]
    exact h other

theorem tracked_setUpload {s : State} {id : JString} {u : Upload} (h : Tracked s)
    (hid : Follows (s.progressMap id) u) : Tracked (s.setUpload id u) := by
  refine tracked_of_one id h (fun _ _ => rfl) ?_ ?_
  · intro other hother
    simp [State.setUpload, hother]
  · simpa [State.setUpload] using hid

/-- An upload whose entry is gone may end. -/
theorem follows_returned {u : Upload} (h : u.contentLength = 0 → u.reported = none) :
    Follows none { u with phase := .returned } where
  waiting _ := rfl
  running _ _ := rfl
  shows _ hp := nomatch hp.1
  returned _ := rfl
  divided := h

theorem follows_report {u : Upload} (b : Int64) (p : Int32) (hrunning : u.phase = .running)
    (hlength : u.contentLength ≠ 0) :
    Follows (if p = 100 then none else some p)
      { u with bytesRead := b, reported := some p } := by
  constructor
  · simp [hrunning]
  · rintro - (hreported | hreported) <;> simp_all
  · rintro q ⟨-, hreported, hlt⟩
    obtain rfl : p = q := Option.some.inj hreported
    have hne : p ≠ 100 := by
      rintro rfl
      exact absurd hlt (by decide)
    rw [if_neg hne]
  · simp [hrunning]
  · exact fun hzero => absurd hzero hlength

theorem tracked_update {s : State} {id : JString} (b : Int64) (h : Tracked s)
    (hrunning : (s.uploads id).phase = .running) :
    Tracked (MyProgressListener.update s id b) := by
  have hid := h id
  unfold MyProgressListener.update percentage
  dsimp only
  split_ifs with hunknown hzero
  · exact tracked_setUpload h ⟨hid.waiting, hid.running, hid.shows, hid.returned, hid.divided⟩
  · -- nothing was reported, because every report would have divided by zero too
    have hentry := hid.running hrunning (Or.inl (hid.divided hzero))
    apply tracked_setUpload h
    rw [hentry]
    exact follows_returned hid.divided
  · apply tracked_of_one id h
    · exact fun other hother => update_other _ hother
    · intro other hother
      simp [State.setUpload, hother]
    · simpa [State.setUpload, update_same] using follows_report b _ hrunning hzero

theorem follows_clear {entry : Option Int32} {u : Upload} (h : Follows entry u)
    (hshows : ∀ p, ¬u.Shows p) : Follows none u where
  waiting _ := rfl
  running _ _ := rfl
  shows p hp := absurd hp (hshows p)
  returned _ := rfl
  divided := h.divided

theorem tracked_request {s : State} {e : Event} (h : Tracked s)
    (hquiet : clears webRoot e → ∀ id p, ¬(s.uploads id).Shows p) :
    Tracked (if clears webRoot e then { s with progressMap := Progress.clear } else s) := by
  split_ifs with hclears
  · exact fun id => follows_clear (h id) (hquiet hclears id)
  · exact h

theorem tracked_next {s : State} {e : Event} (h : Tracked s) (he : Enabled s e)
    (hundisturbed : Undisturbed webRoot s e) : Tracked (next webRoot s e) := by
  cases e with
  | start id length =>
    have hentry := (h id).waiting he
    apply tracked_setUpload h
    constructor <;> simp [hentry, Upload.Shows]
  | update id b => exact tracked_update b h he.1
  | finish id =>
    have hentry := (h id).running he hundisturbed
    apply tracked_setUpload h
    rw [hentry]
    exact follows_returned (h id).divided
  | poll => exact tracked_request h hundisturbed
  | browse => exact tracked_request h hundisturbed
  | terminal => exact tracked_request h hundisturbed

theorem text_injective {p q : Int32} (h : text p = text q) : p = q := by
  simpa using congrArg Int64.toInt32 (longToString_injective h)

theorem shown_in_map {s : State} {id : JString} {p : Int32}
    (h : HttpProgressHandler.handle s.progressMap (some id) = .ok (text p)) :
    Progress.get s.progressMap id = p := by
  simp only [HttpProgressHandler.handle, Response.ok.injEq] at h
  exact text_injective h

/-- While percentages stay between 0 and 100 a step that disturbs an upload shows in a poll. -/
theorem undisturbed_of_pollsRight {s : State} {e : Event} (h : Tracked s) (he : Enabled s e)
    (hrange : ∀ id p, (s.uploads id).reported = some p → 0 ≤ p ∧ p ≤ 100)
    (hright : PollsRight (next webRoot s e)) : Undisturbed webRoot s e := by
  have hquiet : (if clears webRoot e then { s with progressMap := Progress.clear } else s) =
      next webRoot s e → clears webRoot e → ∀ id p, ¬(s.uploads id).Shows p := by
    intro hnext hclears id p hshows
    rw [if_pos hclears] at hnext
    rw [← hnext] at hright
    have hget : (-1 : Int32) = p := shown_in_map (hright.running id p hshows)
    have hpos := (hrange id p hshows.2.1).1
    rw [← hget] at hpos
    exact absurd hpos (by decide)
  cases e with
  | start => exact fun hclears => nomatch hclears
  | update => exact fun hclears => nomatch hclears
  | finish id =>
    have hgone : (s.progressMap id).getD (-1) = -1 := by
      apply shown_in_map (s := next webRoot s (.finish id))
      apply hright.returned
      simp [next, State.setUpload]
    show (s.uploads id).reported = none ∨ (s.uploads id).reported = some 100
    cases hreported : (s.uploads id).reported with
    | none => exact Or.inl rfl
    | some p =>
      right
      obtain ⟨hpos, hle⟩ := hrange id p hreported
      by_contra hne
      have hlt : p < 100 := Int32.lt_of_le_of_ne hle fun heq => hne (by rw [heq])
      rw [(h id).shows p ⟨he, hreported, hlt⟩] at hgone
      obtain rfl : p = -1 := hgone
      exact absurd hpos (by decide)
  | poll => exact hquiet rfl
  | browse => exact hquiet rfl
  | terminal => exact hquiet rfl

/-- In an undisturbed run every poll is answered by the upload that it asks for. -/
theorem polls_answered_right {s : State}
    (h : ReachableWhere (system webRoot) (Undisturbed webRoot) s) : PollsRight s := by
  apply pollsRight_of_tracked
  apply h.invariant
  · rintro _ rfl
    exact tracked_initial
  · exact fun s e => tracked_next

/-- A page is opened once an upload is complete, and another one begins. -/
theorem polls_answered_right_between : PollsRight (runTrace (system []) initial
    [.start [0x31] 200, .update [0x31] 100, .update [0x31] 200, .finish [0x31],
      .start [0x32] 10, .terminal true, .update [0x32] 3]) := by
  refine @polls_answered_right [] _ ?_
  apply validTrace_reachable rfl
  refine ⟨⟨by decide, nofun⟩, ⟨by decide, nofun⟩, ⟨by decide, nofun⟩,
    ⟨by decide, Or.inr (by decide)⟩, ⟨by decide, nofun⟩, ⟨trivial, fun _ => ?_⟩,
    ⟨by decide, nofun⟩, trivial⟩
  rintro id p ⟨hrunning, hreported, -⟩
  by_cases hone : id = [0x31]
  · subst hone
    revert hrunning
    decide +kernel
  · by_cases htwo : id = [0x32]
    · subst htwo
      cases (show (none : Option Int32) = some p from hreported)
    · simp [system, next, initial, MyProgressListener.update, percentage, State.setUpload,
        hone, htwo] at hrunning

def phone : Device := ⟨fun _ => none, fun _ => false, [], fun _ => []⟩

/-- The index page forgets an upload under way, and an upload cut short leaves its percentage. -/
theorem page_forgets_upload :
    ¬(∀ s, Reachable (system []) s → ShowsPercentage s) ∧
      ¬(∀ s, Reachable (system []) s → ForgetsReturned s) := by
  have hstart : (system []).initial initial := rfl
  constructor
  · intro h
    have hreach : Reachable (system []) (runTrace (system []) initial [.start [0x31] 200,
        .update [0x31] 100, .browse phone (ofString "/") true]) :=
      validTrace_reachable hstart (by decide +kernel)
    have hshown := h _ hreach [0x31] 50 ⟨by decide +kernel, by decide +kernel, by decide⟩
    revert hshown
    decide +kernel
  · intro h
    have hreach : Reachable (system []) (runTrace (system []) initial [.start [0x31] 200,
        .update [0x31] 100, .finish [0x31]]) :=
      validTrace_reachable hstart (by decide +kernel)
    have hforgotten := h _ hreach [0x31] (by decide +kernel)
    revert hforgotten
    decide +kernel

end UploadProgress
