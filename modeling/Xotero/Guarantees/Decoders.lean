import Mathlib.Algebra.Group.Action.Defs
import Mathlib.Algebra.Order.BigOperators.Group.List
import Mathlib.Algebra.Order.Ring.Nat
import Xotero.Http.Decoders
import Xotero.Store.Uploads

/-!
Any number of requests in any interleaving: no more compressed bodies than
permits are in memory, no body is looked at before its request is admitted,
and a request that is not dropped is answered as if it were alone.
-/

namespace Xotero

/-- The body is asked for, or the request is done with. -/
def Stage.Begun : Stage → Prop
  | .authorizing | .lookingUp => False
  | .waiting | .reading _ _ | .decoding _ _ | .settled _ => True

namespace Intake

variable {κ : Type} [DecidableEq κ] {intake : Intake κ} {s s' : intake.State}
  {events : List (IntakeEvent κ)} {k k' : κ}

/-! ### Who holds a permit -/

/-- What the semaphore has of a request at each stage. -/
def Placed (intake : Intake κ) (permits : intake.semaphore.State) (k : κ) : Stage → Prop
  | .authorizing | .lookingUp | .settled _ =>
      k ∉ intake.semaphore.held permits ∧ k ∉ intake.semaphore.queue permits
  | .waiting => intake.compressed k = true ∧
      (k ∈ intake.semaphore.held permits ∨ k ∈ intake.semaphore.queue permits)
  | .reading _ _ =>
      if intake.compressed k then k ∈ intake.semaphore.held permits
      else k ∉ intake.semaphore.held permits ∧ k ∉ intake.semaphore.queue permits
  | .decoding _ _ => intake.compressed k = true ∧ k ∈ intake.semaphore.held permits

structure State.Orderly (s : intake.State) : Prop where
  sound : intake.semaphore.Sound s.permits
  placed : ∀ k, Placed intake s.permits k (s.stage k)

theorem Placed.turn {p p' : intake.semaphore.State} (turn : intake.semaphore.Turn k p p')
    (other : k' ≠ k) {stage : Stage} (placed : Placed intake p k' stage) :
    Placed intake p' k' stage := by
  obtain ⟨either, keeps⟩ := turn.others other
  have outside (out : k' ∉ intake.semaphore.held p ∧ k' ∉ intake.semaphore.queue p) :
      k' ∉ intake.semaphore.held p' ∧ k' ∉ intake.semaphore.queue p' := by
    rw [← not_or] at out ⊢
    exact fun hk => out (either.mp hk)
  cases stage with
  | authorizing | lookingUp | settled => exact outside placed
  | waiting => exact ⟨placed.1, either.mpr placed.2⟩
  | decoding => exact ⟨placed.1, keeps placed.2⟩
  | reading =>
      rw [Placed] at placed ⊢
      split
      · rw [if_pos ‹_›] at placed
        exact keeps placed
      · rw [if_neg ‹_›] at placed
        exact outside placed

/-- The semaphore goes on in turn, and no request is admitted again. -/
structure State.Next (s s' : intake.State) : Prop where
  orderly : s'.Orderly
  turn : ∃ k, intake.semaphore.Turn k s.permits s'.permits
  begun : ∀ k, (s.stage k).Begun →
    (s'.stage k).Begun ∧ (s'.stage k = .waiting → s.stage k = .waiting)

theorem State.Orderly.permits (h : s.Orderly) {permits : intake.semaphore.State} {stage : Stage}
    (turn : intake.semaphore.Turn k s.permits permits) (placed : Placed intake permits k stage)
    (begun : (s.stage k).Begun → stage.Begun ∧ stage ≠ .waiting) :
    s.Next (State.move { s with permits := permits } k stage) where
  turn := ⟨k, turn⟩
  begun k' before := by
    by_cases same : k' = k
    · subst same
      rw [State.move_stage_self]
      exact ⟨(begun before).1, fun waits => absurd waits (begun before).2⟩
    · rw [State.move_stage_ne _ same]
      exact ⟨before, id⟩
  orderly := by
    refine ⟨turn.sound h.sound, fun k' => ?_⟩
    by_cases same : k' = k
    · subst same
      rw [State.move_stage_self]
      exact placed
    · rw [State.move_stage_ne _ same]
      exact (h.placed k').turn turn same

theorem State.Orderly.move (h : s.Orderly) {stage : Stage}
    (placed : Placed intake s.permits k stage)
    (begun : (s.stage k).Begun → stage.Begun ∧ stage ≠ .waiting) :
    s.Next (s.move k stage) :=
  h.permits .rest placed begun

/-- What a request must have of the semaphore while its body is collected. -/
theorem State.Orderly.settle (h : s.Orderly) (outcome : IntakeResult)
    (placed : ∀ raw body, Placed intake s.permits k (.reading raw body)) :
    s.Next (s.settle k outcome) := by
  have placed := placed [] (intake.body k)
  rw [Placed] at placed
  rw [State.settle]
  split
  · rw [if_pos ‹_›] at placed
    exact h.permits (.release placed) (Semaphore.not_mem_release h.sound placed)
      (by simp [Stage.Begun])
  · rw [if_neg ‹_›] at placed
    exact h.move placed (by simp [Stage.Begun])

theorem State.Orderly.outside (h : s.Orderly) (fresh : ¬ (s.stage k).Begun) :
    k ∉ intake.semaphore.held s.permits ∧ k ∉ intake.semaphore.queue s.permits := by
  have placed := h.placed k
  cases stage : s.stage k with
  | authorizing | lookingUp =>
      rw [stage] at placed
      exact placed
  | waiting | reading | decoding | settled =>
      rw [stage] at fresh
      exact absurd trivial fresh

/-- A request that has not asked for its body is done with. -/
theorem State.Orderly.finish (h : s.Orderly) (fresh : ¬ (s.stage k).Begun)
    (outcome : IntakeResult) : s.Next (s.move k (.settled outcome)) :=
  h.move (h.outside fresh) (absurd · fresh)

theorem State.Orderly.collect (h : s.Orderly) (fresh : ¬ (s.stage k).Begun) :
    s.Next (s.collect k) := by
  have out := h.outside fresh
  rw [State.collect]
  cases known : intake.encoding k with
  | none =>
      refine h.move ?_ (absurd · fresh)
      rw [Placed, if_neg (by simp [Intake.compressed, known])]
      exact out
  | some encoding =>
      dsimp only
      split
      · have gzip : intake.compressed k = true := by simpa [Intake.compressed, known]
        exact h.permits (.acquire out.1 out.2) ⟨gzip, Semaphore.mem_acquire s.permits k⟩
          (absurd · fresh)
      · split
        · refine h.move ?_ (absurd · fresh)
          have plain : ¬ intake.compressed k = true := by
            simpa [Intake.compressed, known] using ‹¬ eqIgnoreAsciiCase encoding "gzip" = true›
          rw [Placed, if_neg plain]
          exact out
        · exact h.move out (absurd · fresh)

theorem State.Orderly.pollBody (h : s.Orderly) {raw : List UInt8} {body : BodyStream}
    (placed : ∀ raw body, Placed intake s.permits k (.reading raw body)) :
    s.Next (s.pollBody k raw body) := by
  rw [State.pollBody]
  split
  · exact h.move (placed _ _) (by simp [Stage.Begun])
  · exact h.move (placed _ _) (by simp [Stage.Begun])
  · exact h.settle _ placed
  · split
    · have held := placed [] body
      rw [Placed, if_pos ‹_›] at held
      exact h.move ⟨‹_›, held⟩ (by simp [Stage.Begun])
    · exact h.settle _ placed
  · dsimp only
    split
    · exact h.settle _ placed
    · exact h.move (placed _ _) (by simp [Stage.Begun])

/-- No event upsets the semaphore. -/
theorem State.Orderly.step (h : s.Orderly) {e : IntakeEvent κ} (next : s.step e = some s') :
    s.Next s' := by
  have reading {k : κ} {raw : List UInt8} {body : BodyStream}
      (stage : s.stage k = .reading raw body) (raw' : List UInt8) (body' : BodyStream) :
      Placed intake s.permits k (.reading raw' body') := by
    have placed := h.placed k
    rwa [stage] at placed
  have held {k : κ} (gzip : intake.compressed k = true)
      (held : k ∈ intake.semaphore.held s.permits) (raw' : List UInt8) (body' : BodyStream) :
      Placed intake s.permits k (.reading raw' body') := by
    rw [Placed, if_pos gzip]
    exact held
  have decoding {k : κ} {raw : List UInt8} {attached : Bool}
      (stage : s.stage k = .decoding raw attached) (raw' : List UInt8) (body' : BodyStream) :
      Placed intake s.permits k (.reading raw' body') := by
    have placed := h.placed k
    rw [stage] at placed
    exact held placed.1 placed.2 raw' body'
  cases e with
  | authorize k states =>
      rw [State.step] at next
      split at next
      · have fresh : ¬ (s.stage k).Begun := by simp [‹s.stage k = _›, Stage.Begun]
        split at next
        · cases next
          exact h.finish fresh _
        · cases next
          split
          · exact h.move (h.outside fresh) (absurd · fresh)
          · exact h.collect fresh
        · cases next
      · cases next
  | lookUp k now states =>
      rw [State.step] at next
      split at next
      · have fresh : ¬ (s.stage k).Begun := by simp [‹s.stage k = _›, Stage.Begun]
        split at next
        · cases next
          exact h.finish fresh _
        · cases next
          exact h.collect fresh
        · cases next
      · cases next
  | fail k =>
      rw [State.step] at next
      split at next
      · cases next
        exact h.finish (by simp [‹s.stage k = _›, Stage.Begun]) _
      · cases next
        exact h.finish (by simp [‹s.stage k = _›, Stage.Begun]) _
      · cases next
  | enter k =>
      rw [State.step] at next
      split at next
      · split at next
        · cases next
          have placed := h.placed k
          rw [‹s.stage k = _›] at placed
          exact h.move (held placed.1 ‹_› _ _) (by simp [Stage.Begun])
        · cases next
      · cases next
  | poll k =>
      rw [State.step] at next
      split at next
      · cases next
        exact h.pollBody (reading ‹_›)
      · cases next
  | decode k | crash k =>
      rw [State.step] at next
      split at next
      · cases next
        exact h.settle _ (decoding ‹_›)
      · cases next
  | drop k =>
      rw [State.step] at next
      split at next
      · cases next
        exact h.finish (by simp [‹s.stage k = _›, Stage.Begun]) _
      · cases next
        exact h.finish (by simp [‹s.stage k = _›, Stage.Begun]) _
      · have placed := h.placed k
        rw [‹s.stage k = _›] at placed
        split at next
        · cases next
          exact h.settle _ (held placed.1 ‹_›)
        · cases next
          have waits := placed.2.resolve_left ‹_›
          exact h.permits (.leave waits) (Semaphore.not_mem_leave h.sound waits)
            (by simp [Stage.Begun])
      · cases next
        exact h.settle _ (reading ‹_›)
      · cases next
        have placed := h.placed k
        rw [‹s.stage k = _›] at placed
        exact h.move placed (by simp [Stage.Begun])
      · cases next
      · cases next

theorem Reaches.orderly (reached : intake.Reaches events s) : s.Orderly := by
  induction reached with
  | rest =>
      refine ⟨Semaphore.sound_initial, fun k => ?_⟩
      show Placed intake intake.semaphore.initial k .authorizing
      rw [Placed, intake.semaphore.held_initial, intake.semaphore.queue_initial]
      exact ⟨List.not_mem_nil, List.not_mem_nil⟩
  | step before next ih => exact (ih.step next).orderly

/-! ### What is in memory -/

/-- The bytes of the body that the middleware has collected and not yet let go. -/
def buffered : Stage → Option (List UInt8)
  | .reading raw _ | .decoding raw _ => some raw
  | .authorizing | .lookingUp | .waiting | .settled _ => none

theorem State.Orderly.held_of_buffered (h : s.Orderly) (gzip : intake.compressed k = true)
    (buffers : (buffered (s.stage k)).isSome) : k ∈ intake.semaphore.held s.permits := by
  have placed := h.placed k
  cases stage : s.stage k with
  | reading raw body =>
      rw [stage, Placed, if_pos gzip] at placed
      exact placed
  | decoding raw attached =>
      rw [stage] at placed
      exact placed.2
  | authorizing | lookingUp | waiting | settled => simp [stage, buffered] at buffers

/-- Requests with a compressed body in memory are at most as many as permits. -/
theorem State.Orderly.few (h : s.Orderly) {ks : List κ} (nodup : ks.Nodup)
    (gzip : ∀ k ∈ ks, intake.compressed k = true ∧ (buffered (s.stage k)).isSome) :
    ks.length ≤ decoders := by
  have sub : ks ⊆ intake.semaphore.held s.permits :=
    fun k hk => h.held_of_buffered (gzip k hk).1 (gzip k hk).2
  exact (List.subperm_of_subset nodup sub).length_le.trans h.sound.bounded

/-! ### What has happened to a request -/

def Authorized (intake : Intake κ) (events : List (IntakeEvent κ)) (k : κ) : Prop :=
  ∃ states context access, .authorize k states ∈ events ∧
    (authorizeRequest intake.digests intake.config (intake.request k)).replay states =
      some (.admitted context access)

/-- The middleware lets the request through, and so does the handler of an upload. -/
structure Admitted (intake : Intake κ) (events : List (IntakeEvent κ)) (k : κ) : Prop where
  authorized : Authorized intake events k
  upload : (intake.request k).isUpload = true → ∃ now states upload,
    .lookUp k now states ∈ events ∧
      (intake.lookUp k now).replay states = some (.admitted upload)

/-- The polls so far have come to `raw` and leave `body`. -/
def Collecting (intake : Intake κ) (k : κ) (raw : List UInt8) (body : BodyStream) : Prop :=
  ∃ n, ∀ m, collectFrames (intake.limit k) (n + m) [] (intake.body k) =
    collectFrames (intake.limit k) m raw body

/-- The body of the request, polled some number of times, comes to this. -/
def Answers (intake : Intake κ) (k : κ) (answer : Except Nat (List UInt8)) : Prop :=
  ∃ n, (bufferedBody intake.gunzip n (intake.request k).headers (intake.limit k)
    (intake.body k)).1 = some answer

def Told (intake : Intake κ) (events : List (IntakeEvent κ)) (k : κ) : Stage → Prop
  | .authorizing => .poll k ∉ events
  | .lookingUp => .poll k ∉ events ∧ Authorized intake events k
  | .settled (.refused response) => .poll k ∉ events ∧ ∃ states, .authorize k states ∈ events ∧
      (authorizeRequest intake.digests intake.config (intake.request k)).replay states =
        some (.refused response)
  | .settled (.denied response) => .poll k ∉ events ∧ Authorized intake events k ∧
      ∃ now states, .lookUp k now states ∈ events ∧
        (intake.lookUp k now).replay states = some (.refused response)
  | .settled .failed => .poll k ∉ events ∧ .fail k ∈ events
  | .waiting => Admitted intake events k ∧ intake.compressed k = true
  | .reading raw body => Admitted intake events k ∧ raw.length ≤ intake.limit k ∧
      Collecting intake k raw body ∧ (intake.compressed k = true ∨
        ∀ encoding ∈ intake.encoding k, eqIgnoreAsciiCase encoding "gzip" = false ∧
          eqIgnoreAsciiCase encoding "identity" = true)
  | .decoding raw attached => Admitted intake events k ∧ raw.length ≤ intake.limit k ∧
      intake.compressed k = true ∧
      (∃ n, (collectFrames (intake.limit k) n [] (intake.body k)).1 = some (.ok raw)) ∧
      (attached = false → .drop k ∈ events)
  | .settled (.read answer) => Admitted intake events k ∧
      (Answers intake k answer ∨ answer = .error 500 ∧ .crash k ∈ events)
  | .settled .dropped => .drop k ∈ events

/-! #### From the collected bytes to the answer -/

section Answer
variable {n : Nat}

theorem answers_error {status : Nat}
    (known : intake.compressed k = true ∨ ∀ encoding ∈ intake.encoding k,
      eqIgnoreAsciiCase encoding "gzip" = false ∧ eqIgnoreAsciiCase encoding "identity" = true)
    (collected : (collectFrames (intake.limit k) n [] (intake.body k)).1 = some (.error status)) :
    Answers intake k (.error status) := by
  refine ⟨n, ?_⟩
  rw [bufferedBody]
  cases found : (intake.request k).headers.get "content-encoding" with
  | none => exact collected
  | some encoding =>
      dsimp only
      split
      · cases whole : collectFrames (intake.limit k) n [] (intake.body k) with
        | mk result body =>
            rw [whole] at collected
            obtain rfl : result = some (.error status) := collected
            rfl
      · cases known with
        | inl gzip =>
            have gzip : eqIgnoreAsciiCase encoding "gzip" = true := by
              simpa [Intake.compressed, Intake.encoding, found] using gzip
            exact absurd gzip ‹_›
        | inr plain =>
            rw [if_pos (plain encoding found).2]
            exact collected

theorem answers_plain {raw : List UInt8}
    (plain : ∀ encoding ∈ intake.encoding k,
      eqIgnoreAsciiCase encoding "gzip" = false ∧ eqIgnoreAsciiCase encoding "identity" = true)
    (collected : (collectFrames (intake.limit k) n [] (intake.body k)).1 = some (.ok raw)) :
    Answers intake k (.ok raw) := by
  refine ⟨n, ?_⟩
  rw [bufferedBody]
  cases found : (intake.request k).headers.get "content-encoding" with
  | none => exact collected
  | some encoding =>
      obtain ⟨other, identity⟩ := plain encoding found
      dsimp only
      rw [if_neg (by simp [other]), if_pos identity]
      exact collected

theorem answers_gzip {raw : List UInt8} (gzip : intake.compressed k = true)
    (collected : (collectFrames (intake.limit k) n [] (intake.body k)).1 = some (.ok raw)) :
    Answers intake k (decodeGzip intake.gunzip (intake.limit k) raw) := by
  refine ⟨n, ?_⟩
  rw [bufferedBody]
  cases found : (intake.request k).headers.get "content-encoding" with
  | none => simp [Intake.compressed, Intake.encoding, found] at gzip
  | some encoding =>
      have same : eqIgnoreAsciiCase encoding "gzip" = true := by
        simpa [Intake.compressed, Intake.encoding, found] using gzip
      dsimp only
      rw [if_pos same]
      cases whole : collectFrames (intake.limit k) n [] (intake.body k) with
      | mk result body =>
          rw [whole] at collected
          obtain rfl : result = some (.ok raw) := collected
          rfl

theorem answers_unknown {encoding : String} (found : intake.encoding k = some encoding)
    (other : ¬ eqIgnoreAsciiCase encoding "gzip" = true)
    (other' : ¬ eqIgnoreAsciiCase encoding "identity" = true) :
    Answers intake k (.error 415) := by
  refine ⟨0, ?_⟩
  rw [Intake.encoding] at found
  rw [bufferedBody, found]
  dsimp only
  rw [if_neg other, if_neg other']

end Answer

/-! #### One event -/

theorem Authorized.mono (h : Authorized intake events k) (e : IntakeEvent κ) :
    Authorized intake (events ++ [e]) k := by
  obtain ⟨states, context, access, he, admitted⟩ := h
  exact ⟨states, context, access, List.mem_append_left [e] he, admitted⟩

theorem Admitted.mono (h : Admitted intake events k) (e : IntakeEvent κ) :
    Admitted intake (events ++ [e]) k := by
  refine ⟨h.authorized.mono e, fun upload => ?_⟩
  obtain ⟨now, states, upload, he, admitted⟩ := h.upload upload
  exact ⟨now, states, upload, List.mem_append_left [e] he, admitted⟩

theorem Told.mono {stage : Stage} (h : Told intake events k stage) {e : IntakeEvent κ}
    (other : e ≠ .poll k) : Told intake (events ++ [e]) k stage := by
  have unpolled (before : .poll k ∉ events) : .poll k ∉ events ++ [e] := by
    rw [List.mem_append, not_or]
    exact ⟨before, fun last => other (List.mem_singleton.mp last).symm⟩
  cases stage with
  | authorizing => exact unpolled h
  | lookingUp => exact ⟨unpolled h.1, h.2.mono e⟩
  | waiting => exact ⟨h.1.mono e, h.2⟩
  | reading => exact ⟨h.1.mono e, h.2⟩
  | decoding =>
      obtain ⟨admitted, short, gzip, collected, dropped⟩ := h
      exact ⟨admitted.mono e, short, gzip, collected, fun gone =>
        List.mem_append_left [e] (dropped gone)⟩
  | settled outcome =>
      cases outcome with
      | refused =>
          obtain ⟨states, he, refused⟩ := h.2
          exact ⟨unpolled h.1, states, List.mem_append_left [e] he, refused⟩
      | denied =>
          obtain ⟨now, states, he, refused⟩ := h.2.2
          exact ⟨unpolled h.1, h.2.1.mono e, now, states, List.mem_append_left [e] he, refused⟩
      | failed => exact ⟨unpolled h.1, List.mem_append_left [e] h.2⟩
      | read =>
          exact ⟨h.1.mono e, h.2.imp_right fun crashed =>
            ⟨crashed.1, List.mem_append_left [e] crashed.2⟩⟩
      | dropped => exact List.mem_append_left [e] h

/-- What is told of a request that an event moves, and of all others. -/
theorem told_step (told : ∀ k, Told intake events k (s.stage k)) {e : IntakeEvent κ}
    {permits : intake.semaphore.State} (mine : ∀ k', e = .poll k' → k' = k) (stage : Stage)
    (now : Told intake (events ++ [e]) k stage) (k' : κ) :
    Told intake (events ++ [e]) k'
      ((State.move { s with permits := permits } k stage).stage k') := by
  by_cases same : k' = k
  · subst same
    rw [State.move_stage_self]
    exact now
  · rw [State.move_stage_ne _ same]
    exact (told k').mono fun polled => same (mine k' polled)

/-- The collection goes on where it stands. -/
theorem Collecting.poll {raw raw' : List UInt8} {body body' : BodyStream}
    (h : Collecting intake k raw body)
    (next : ∀ m, collectFrames (intake.limit k) (m + 1) raw body =
      collectFrames (intake.limit k) m raw' body') : Collecting intake k raw' body' := by
  obtain ⟨n, same⟩ := h
  refine ⟨n + 1, fun m => ?_⟩
  rw [Nat.add_right_comm, Nat.add_assoc, same, next]

theorem Collecting.ends {raw : List UInt8} {body body' : BodyStream}
    (h : Collecting intake k raw body) {result : Except Nat (List UInt8)}
    (next : collectFrames (intake.limit k) 1 raw body = (some result, body')) :
    ∃ n, (collectFrames (intake.limit k) n [] (intake.body k)).1 = some result := by
  obtain ⟨n, same⟩ := h
  exact ⟨n + 1, by rw [same, next]⟩

theorem told_pollBody {raw : List UInt8} {body : BodyStream} (stage : s.stage k = .reading raw body)
    (told : ∀ k, Told intake events k (s.stage k)) (k' : κ) :
    Told intake (events ++ [.poll k]) k' ((s.pollBody k raw body).stage k') := by
  have here := told k
  rw [stage] at here
  obtain ⟨admitted, short, collecting, known⟩ := here
  have admitted := admitted.mono (.poll k)
  have mine (k' : κ) (same : IntakeEvent.poll k = .poll k') : k' = k := by
    cases same
    rfl
  rw [State.pollBody]
  split
  · rename_i body' polled
    have next (m : Nat) : collectFrames (intake.limit k) (m + 1) raw body =
        collectFrames (intake.limit k) m raw body' := by rw [collectFrames, polled]
    exact told_step told mine (.reading raw body') ⟨admitted, short, collecting.poll next, known⟩ k'
  · rename_i body' polled
    have next (m : Nat) : collectFrames (intake.limit k) (m + 1) raw body =
        collectFrames (intake.limit k) m raw body' := by rw [collectFrames, polled]
    exact told_step told mine (.reading raw body') ⟨admitted, short, collecting.poll next, known⟩ k'
  · rename_i body' polled
    have next : collectFrames (intake.limit k) 1 raw body = (some (.error 400), body') := by
      rw [collectFrames, polled]
    obtain ⟨n, collected⟩ := collecting.ends next
    exact told_step told mine (.settled (.read (.error _)))
      ⟨admitted, .inl (answers_error known collected)⟩ k'
  · rename_i body' polled
    have next : collectFrames (intake.limit k) 1 raw body = (some (.ok raw), body') := by
      rw [collectFrames, polled]
    obtain ⟨n, collected⟩ := collecting.ends next
    split
    · exact told_step told mine (.decoding raw true)
        ⟨admitted, short, ‹_›, ⟨n, collected⟩, nofun⟩ k'
    · have plain := known.resolve_left ‹_›
      exact told_step told mine (.settled (.read (.ok raw)))
        ⟨admitted, .inl (answers_plain plain collected)⟩ k'
  · rename_i bytes body' polled
    dsimp only
    split
    · have next : collectFrames (intake.limit k) 1 raw body = (some (.error 413), body') := by
        rw [collectFrames, polled]
        exact if_pos ‹_›
      obtain ⟨n, collected⟩ := collecting.ends next
      exact told_step told mine (.settled (.read (.error _)))
        ⟨admitted, .inl (answers_error known collected)⟩ k'
    · have next (m : Nat) : collectFrames (intake.limit k) (m + 1) raw body =
          collectFrames (intake.limit k) m
            (raw ++ bytes.take (intake.limit k + 1 - raw.length)) body' := by
        rw [collectFrames, polled]
        exact if_neg ‹_›
      exact told_step told mine (.reading _ body')
        ⟨admitted, Nat.le_of_not_lt ‹_›, collecting.poll next, known⟩ k'

theorem told_collect (told : ∀ k, Told intake events k (s.stage k)) {e : IntakeEvent κ}
    (other : ∀ k', e ≠ .poll k') (admitted : Admitted intake (events ++ [e]) k) (k' : κ) :
    Told intake (events ++ [e]) k' ((s.collect k).stage k') := by
  have mine (k' : κ) (same : e = .poll k') : k' = k := absurd same (other k')
  have start : Collecting intake k [] (intake.body k) := ⟨0, fun m => by rw [Nat.zero_add]⟩
  rw [State.collect]
  cases found : intake.encoding k with
  | none =>
      exact told_step told mine (.reading [] _)
        ⟨admitted, Nat.zero_le _, start, .inr (by simp [found])⟩ k'
  | some encoding =>
      dsimp only
      split
      · exact told_step told mine .waiting ⟨admitted, by simpa [Intake.compressed, found]⟩ k'
      · split
        · refine told_step told mine (.reading [] _) ⟨admitted, Nat.zero_le _, start, .inr ?_⟩ k'
          intro encoding' same
          obtain rfl : encoding = encoding' := Option.some.inj (found.symm.trans same)
          exact ⟨by simpa using ‹¬ eqIgnoreAsciiCase encoding "gzip" = true›, ‹_›⟩
        · exact told_step told mine (.settled (.read (.error 415)))
            ⟨admitted, .inl (answers_unknown found ‹_› ‹_›)⟩ k'

theorem told_of_step (told : ∀ k, Told intake events k (s.stage k)) {e : IntakeEvent κ}
    (next : s.step e = some s') (k' : κ) : Told intake (events ++ [e]) k' (s'.stage k') := by
  have last (e : IntakeEvent κ) : e ∈ events ++ [e] := by simp
  have unpolled {k : κ} {e : IntakeEvent κ} (other : e ≠ .poll k) (before : .poll k ∉ events) :
      .poll k ∉ events ++ [e] := by
    rw [List.mem_append, not_or]
    exact ⟨before, fun here => other (List.mem_singleton.mp here).symm⟩
  cases e with
  | authorize k states =>
      have here := told k
      rw [State.step] at next
      split at next
      · rename_i stage
        rw [stage] at here
        split at next
        · rename_i response replayed
          cases next
          exact told_step told (fun _ same => by cases same) (.settled (.refused response))
            ⟨unpolled (e := .authorize k states) nofun here, states, last _, replayed⟩ k'
        · rename_i context access replayed
          cases next
          have authorized : Authorized intake (events ++ [.authorize k states]) k :=
            ⟨states, context, access, last _, replayed⟩
          split
          · exact told_step told (fun _ same => by cases same) .lookingUp
              ⟨unpolled (e := .authorize k states) nofun here, authorized⟩ k'
          · exact told_collect told (fun _ same => by cases same)
              ⟨authorized, fun upload => absurd upload ‹_›⟩ k'
        · cases next
      · cases next
  | lookUp k now states =>
      have here := told k
      rw [State.step] at next
      split at next
      · rename_i stage
        rw [stage] at here
        split at next
        · rename_i response replayed
          cases next
          exact told_step told (fun _ same => by cases same) (.settled (.denied response))
            ⟨unpolled (e := .lookUp k now states) nofun here.1, here.2.mono _, now, states,
              last _, replayed⟩ k'
        · rename_i upload replayed
          cases next
          exact told_collect told (fun _ same => by cases same)
            ⟨here.2.mono _, fun _ => ⟨now, states, upload, last _, replayed⟩⟩ k'
        · cases next
      · cases next
  | fail k =>
      have here := told k
      rw [State.step] at next
      split at next
      · cases next
        rw [‹s.stage k = _›] at here
        exact told_step told (fun _ same => by cases same) (.settled .failed)
          ⟨unpolled (e := .fail k) nofun here, last _⟩ k'
      · cases next
        rw [‹s.stage k = _›] at here
        exact told_step told (fun _ same => by cases same) (.settled .failed)
          ⟨unpolled (e := .fail k) nofun here.1, last _⟩ k'
      · cases next
  | enter k =>
      have here := told k
      rw [State.step] at next
      split at next
      · rename_i stage
        rw [stage] at here
        split at next
        · cases next
          refine told_step told (fun _ same => by cases same) (.reading [] _)
            ⟨here.1.mono _, Nat.zero_le _, ?_, .inl here.2⟩ k'
          exact ⟨0, fun m => by rw [Nat.zero_add]⟩
        · cases next
      · cases next
  | poll k =>
      rw [State.step] at next
      split at next
      · cases next
        exact told_pollBody ‹_› told k'
      · cases next
  | decode k =>
      have here := told k
      rw [State.step] at next
      split at next
      · rename_i raw attached stage
        rw [stage] at here
        obtain ⟨admitted, -, gzip, ⟨n, collected⟩, dropped⟩ := here
        cases next
        refine told_step told (fun _ same => by cases same) (.settled _) ?_ k'
        cases attached with
        | true => exact ⟨admitted.mono _, .inl (answers_gzip gzip collected)⟩
        | false => exact List.mem_append_left _ (dropped rfl)
      · cases next
  | crash k =>
      have here := told k
      rw [State.step] at next
      split at next
      · rename_i raw attached stage
        rw [stage] at here
        cases next
        refine told_step told (fun _ same => by cases same) (.settled _) ?_ k'
        cases attached with
        | true => exact ⟨here.1.mono _, .inr ⟨rfl, last _⟩⟩
        | false => exact List.mem_append_left _ (here.2.2.2.2 rfl)
      · cases next
  | drop k =>
      have here := told k
      rw [State.step] at next
      split at next
      · cases next
        exact told_step told (fun _ same => by cases same) (.settled .dropped) (last _) k'
      · cases next
        exact told_step told (fun _ same => by cases same) (.settled .dropped) (last _) k'
      · split at next
        · cases next
          exact told_step told (fun _ same => by cases same) (.settled .dropped) (last _) k'
        · cases next
          exact told_step told (fun _ same => by cases same) (.settled .dropped) (last _) k'
      · cases next
        exact told_step told (fun _ same => by cases same) (.settled .dropped) (last _) k'
      · cases next
        rename_i raw stage
        rw [stage] at here
        exact told_step told (fun _ same => by cases same) (.decoding raw false)
          ⟨here.1.mono _, here.2.1, here.2.2.1, here.2.2.2.1, fun _ => last _⟩ k'
      · cases next
      · cases next

theorem Reaches.told (reached : intake.Reaches events s) (k : κ) :
    Told intake events k (s.stage k) := by
  induction reached generalizing k with
  | rest => exact List.not_mem_nil
  | step before next ih => exact told_of_step ih next k

/-! ### What never happens -/

/-- Along a run there is a state between any two events. -/
theorem State.Leads.split {pre post : List (IntakeEvent κ)} {e : IntakeEvent κ}
    (leads : s.Leads events s') (same : events = pre ++ e :: post) :
    ∃ mid next, s.Leads pre mid ∧ mid.step e = some next := by
  induction leads generalizing post with
  | rest => simp at same
  | @step events mid next before e' now ih =>
      cases List.eq_nil_or_concat' post with
      | inl nil =>
          subst nil
          obtain ⟨rfl, last⟩ := List.append_inj' same rfl
          cases last
          exact ⟨mid, next, before, now⟩
      | inr more =>
          obtain ⟨post, last, rfl⟩ := more
          rw [← List.cons_append, ← List.append_assoc] at same
          exact ih (List.append_inj' same rfl).1

theorem step_poll (next : s.step (.poll k) = some s') :
    ∃ raw body, s.stage k = .reading raw body := by
  rw [State.step] at next
  split at next
  · exact ⟨_, _, ‹_›⟩
  · cases next

theorem Reaches.short (reached : intake.Reaches events s) {raw : List UInt8}
    (here : buffered (s.stage k) = some raw) : raw.length ≤ maxBody := by
  have small : intake.limit k ≤ maxBody := by
    rw [Intake.limit]
    split
    · exact Nat.le_refl maxBody
    · split
      · decide
      · exact Nat.le_refl maxBody
  have told := reached.told k
  cases stage : s.stage k with
  | reading raw' body =>
      rw [stage] at told here
      cases here
      exact told.2.1.trans small
  | decoding raw' attached =>
      rw [stage] at told here
      cases here
      exact told.2.1.trans small
  | authorizing | lookingUp | waiting | settled => simp [stage, buffered] at here

/-- Whatever requests come and however their events interleave: at most four
compressed bodies are in memory and these are within the limit; a body is looked
at only when its request is admitted, an upload also by its handler; and an answer
is the one that the request would get alone, unless its job panicked. -/
theorem intake_safe (reached : intake.Reaches events s) :
    (∀ ks : List κ, ks.Nodup →
      (∀ k ∈ ks, intake.compressed k = true ∧ (buffered (s.stage k)).isSome) →
      ks.length ≤ decoders ∧
        (ks.map fun k => ((buffered (s.stage k)).getD []).length).sum ≤ decoders * maxBody) ∧
    (∀ k pre post, events = pre ++ .poll k :: post → Admitted intake pre k) ∧
    (∀ k response, s.stage k = .settled (.refused response) → .poll k ∉ events) ∧
    (∀ k response, s.stage k = .settled (.denied response) → .poll k ∉ events) ∧
    ∀ k answer, s.stage k = .settled (.read answer) →
      Answers intake k answer ∨ answer = .error 500 ∧ .crash k ∈ events := by
  refine ⟨fun ks nodup gzip => ?_, fun k pre post same => ?_, fun k response stage => ?_,
    fun k response stage => ?_, fun k answer stage => ?_⟩
  · have few := reached.orderly.few nodup gzip
    refine ⟨few, ?_⟩
    have each (n) (hn : n ∈ ks.map fun k => ((buffered (s.stage k)).getD []).length) :
        n ≤ maxBody := by
      obtain ⟨k, -, rfl⟩ := List.mem_map.mp hn
      cases here : buffered (s.stage k) with
      | none => exact Nat.zero_le _
      | some raw => exact reached.short here
    have bound := List.sum_le_card_nsmul _ maxBody each
    simp only [List.length_map, smul_eq_mul] at bound
    exact bound.trans (Nat.mul_le_mul_right maxBody few)
  · obtain ⟨mid, next, before, polled⟩ := State.Leads.split reached same
    obtain ⟨raw, body, stage⟩ := step_poll polled
    have told := Reaches.told before k
    rw [stage] at told
    exact told.1
  · have told := reached.told k
    rw [stage] at told
    exact told.1
  · have told := reached.told k
    rw [stage] at told
    exact told.1
  · have told := reached.told k
    rw [stage] at told
    exact told.2


theorem State.Leads.trans {s'' : intake.State} {more : List (IntakeEvent κ)}
    (first : s.Leads events s') (second : s'.Leads more s'') : s.Leads (events ++ more) s'' := by
  induction second with
  | rest => rwa [List.append_nil]
  | step before next ih =>
      rw [← List.append_assoc]
      exact .step ih next

/-- Where a list of events leads to. -/
def State.after (s : intake.State) : List (IntakeEvent κ) → Option intake.State
  | [] => some s
  | e :: events => (s.step e).bind fun s => s.after events

theorem State.leads_of_after (ran : s.after events = some s') : s.Leads events s' := by
  induction events generalizing s with
  | nil =>
      obtain rfl := Option.some.inj ran
      exact .rest
  | cons e events ih =>
      obtain ⟨next, first, rest⟩ := Option.bind_eq_some_iff.mp ran
      exact (State.Leads.step .rest first).trans (ih rest)

/-- Compressed. -/
def helloGzip : List UInt8 :=
  [31, 139, 8, 0, 0, 0, 0, 0, 2, 3, 203, 72, 205, 201, 201, 7, 0, 134, 166, 16, 54, 5, 0, 0, 0]

/-- Compressed bodies: four requests for the login page, and uploads of one token. -/
def demoIntake : Intake Nat where
  digests := demoDigests
  config := demoConfig
  gunzip raw := if raw = helloGzip then (demoBody, true) else ([], false)
  request k :=
    if k < 4 then ⟨.get, "/login", [("content-encoding", "gzip")]⟩
    else ⟨.post, "/uploads/00112233445566778899aabbccddeeff", [("content-encoding", "gzip")]⟩
  token _ := .ok "00112233445566778899aabbccddeeff"
  body _ := ⟨fun n => if n = 0 then .data helloGzip else .finished, 0⟩
  semaphore := Permits.semaphore Nat decoders

/-- The login page is asked for four times, then the file is uploaded. -/
def demoArrivals : List (IntakeEvent Nat) :=
  [.authorize 0 [], .authorize 1 [], .authorize 2 [], .authorize 3 [], .authorize 4 [],
    .lookUp 4 1 [pendingDatabase .authorized, pendingDatabase .authorized]]

theorem demoArrivals_reached : ∃ s, demoIntake.Reaches demoArrivals s ∧
    s.permits = (⟨[3, 2, 1, 0], [4]⟩ : Permits Nat) ∧ s.stage 4 = .waiting :=
  ⟨_, State.leads_of_after rfl, rfl, rfl⟩

/-- Another upload comes too late, and the first request hands on its permit. -/
def demoService : List (IntakeEvent Nat) :=
  [.authorize 5 [], .lookUp 5 1 [pendingDatabase .uploading], .enter 0, .poll 0, .poll 0,
    .decode 0, .enter 4, .poll 4]

theorem intake_safe_login : ∃ s, demoIntake.Reaches (demoArrivals ++ demoService) s ∧
    s.stage 0 = .settled (.read (.ok demoBody)) ∧ Answers demoIntake 0 (.ok demoBody) ∧
    s.stage 5 = .settled (.denied ⟨409, "upload token already used"⟩) ∧
    .poll 5 ∉ demoArrivals ++ demoService ∧
    buffered (s.stage 4) = some helloGzip ∧ [4].length ≤ decoders ∧
    Admitted demoIntake (demoArrivals ++ demoService.take 7) 4 := by
  obtain ⟨s, reached, answered, refused, collected⟩ :
      ∃ s, demoIntake.Reaches (demoArrivals ++ demoService) s ∧
        s.stage 0 = .settled (.read (.ok demoBody)) ∧
        s.stage 5 = .settled (.denied ⟨409, "upload token already used"⟩) ∧
        buffered (s.stage 4) = some helloGzip := ⟨_, State.leads_of_after rfl, rfl, rfl, rfl⟩
  obtain ⟨few, admitted, -, unpolled, answers⟩ := intake_safe reached
  refine ⟨s, reached, answered, ?_, refused, unpolled 5 _ refused, collected,
    (few [4] (List.nodup_singleton 4) ?_).1, admitted 4 _ [] rfl⟩
  · exact (answers 0 _ answered).resolve_right fun both => nomatch both.1
  · intro k here
    obtain rfl := List.mem_singleton.mp here
    exact ⟨rfl, by rw [collected]; rfl⟩

/-! ### In turn -/

theorem State.Leads.orderly (leads : s.Leads events s') (h : s.Orderly) : s'.Orderly := by
  induction leads with
  | rest => exact h
  | step before next ih => exact (ih.step next).orderly

theorem State.Orderly.waiting (h : s.Orderly) (waits : k ∈ intake.semaphore.queue s.permits) :
    s.stage k = .waiting := by
  have apart := (List.nodup_append'.mp h.sound.apart).2.2
  have placed := h.placed k
  cases stage : s.stage k with
  | waiting => rfl
  | authorizing | lookingUp | settled =>
      rw [stage] at placed
      exact absurd waits placed.2
  | decoding raw attached =>
      rw [stage] at placed
      exact absurd waits (apart placed.2)
  | reading raw body =>
      rw [stage, Placed] at placed
      split at placed
      · exact absurd waits (apart placed)
      · exact absurd waits placed.2

/-- A request that has left the queue is not seen there again. -/
theorem State.Orderly.past (h : s.Orderly) {e : IntakeEvent κ} (next : s.step e = some s')
    (begun : (s.stage k).Begun) (gone : k ∉ intake.semaphore.queue s.permits) :
    k ∉ intake.semaphore.queue s'.permits := by
  intro back
  have after := h.step next
  have waits := (after.begun k begun).2 (after.orderly.waiting back)
  have placed := h.placed k
  rw [waits] at placed
  have held := placed.2.resolve_right gone
  obtain ⟨q, turn⟩ := after.turn
  exact turn.unqueued h.sound held back

theorem State.Leads.behind {ahead behind : List κ} (leads : s.Leads events s') (h : s.Orderly)
    (queue : intake.semaphore.queue s.permits = ahead ++ k :: behind) :
    (s'.stage k).Begun ∧ (k ∈ intake.semaphore.queue s'.permits →
      intake.semaphore.Behind ahead (intake.semaphore.held s.permits) k s'.permits) := by
  have waits : k ∈ intake.semaphore.queue s.permits := by simp [queue]
  induction leads with
  | rest =>
      refine ⟨by simp [h.waiting waits, Stage.Begun], fun _ => ?_⟩
      exact ⟨⟨ahead, behind, queue, .refl ahead⟩, fun k' hk => .inl hk⟩
  | @step events mid next before e now ih =>
      obtain ⟨begun, before'⟩ := ih
      have orderly := before.orderly h
      have after := orderly.step now
      refine ⟨(after.begun k begun).1, fun waits' => ?_⟩
      obtain ⟨q, turn⟩ := after.turn
      by_cases still : k ∈ intake.semaphore.queue mid.permits
      · exact (before' still).turn orderly.sound turn waits'
      · exact absurd waits' (orderly.past now begun still)

/-! ### No deadlock -/

/-- Events that a request which holds a permit brings about by itself. -/
inductive Works : IntakeEvent κ → Prop where
  | enter (k : κ) : Works (.enter k)
  | poll (k : κ) : Works (.poll k)
  | decode (k : κ) : Works (.decode k)

theorem collectFrames_add {limit n : Nat} {raw : List UInt8} {body : BodyStream}
    (ends : (collectFrames limit n raw body).1.isSome) (m : Nat) :
    collectFrames limit (n + m) raw body = collectFrames limit n raw body := by
  induction n generalizing raw body with
  | zero => simp [collectFrames] at ends
  | succ n ih =>
      rw [Nat.add_right_comm]
      rw [collectFrames] at ends
      rw [collectFrames, collectFrames]
      split
      · simp only [*] at ends
        exact ih ends
      · simp only [*] at ends
        exact ih ends
      · rfl
      · rfl
      · simp only [*] at ends
        dsimp only
        split
        · rfl
        · rw [if_neg ‹_›] at ends
          exact ih ends

/-- By its own events the request of `k` comes to its end and gives back its permit. -/
def Finishes (s : intake.State) (k : κ) : Prop :=
  ∃ more s', s.Leads more s' ∧ (∀ e ∈ more, Works e) ∧
    (∃ outcome, s'.stage k = .settled outcome) ∧
    s'.permits = intake.semaphore.release s.permits k

theorem finishes_settle (gzip : intake.compressed k = true) {e : IntakeEvent κ} (works : Works e)
    {outcome : IntakeResult} (next : s.step e = some (s.settle k outcome)) : Finishes s k := by
  have settled : s.settle k outcome = State.move
      { s with permits := intake.semaphore.release s.permits k } k (.settled outcome) := by
    rw [State.settle, if_pos gzip]
  refine ⟨[e], s.settle k outcome, .step .rest next, by simpa using works, ⟨outcome, ?_⟩, ?_⟩
  · rw [settled, State.move_stage_self]
  · rw [settled, State.move_permits]

theorem Finishes.after {e : IntakeEvent κ} (works : Works e) {stage : Stage}
    (next : s.step e = some (s.move k stage)) (h : Finishes (s.move k stage) k) : Finishes s k := by
  obtain ⟨more, s', leads, all, settled, permits⟩ := h
  have first : s.Leads ([] ++ [e]) (s.move k stage) := .step .rest next
  refine ⟨[e] ++ more, s', first.trans leads, fun e' he => ?_, settled,
    by rw [permits, State.move_permits]⟩
  cases List.mem_append.mp he with
  | inl here => exact List.mem_singleton.mp here ▸ works
  | inr later => exact all e' later

theorem finishes_decoding (gzip : intake.compressed k = true) {raw : List UInt8} {attached : Bool}
    (stage : s.stage k = .decoding raw attached) : Finishes s k := by
  have next : s.step (.decode k) = some (s.settle k (if attached then
      .read (decodeGzip intake.gunzip (intake.limit k) raw) else .dropped)) := by
    simp only [State.step, stage]
  exact finishes_settle gzip (.decode k) next

/-- The induction is on the polls that are left. -/
theorem finishes_reading (gzip : intake.compressed k = true) {n : Nat} {raw : List UInt8}
    {body : BodyStream} (stage : s.stage k = .reading raw body)
    (ends : (collectFrames (intake.limit k) n raw body).1.isSome) : Finishes s k := by
  induction n generalizing s raw body with
  | zero => simp [collectFrames] at ends
  | succ n ih =>
      have next : s.step (.poll k) = some (s.pollBody k raw body) := by
        simp only [State.step, stage]
      rw [collectFrames] at ends
      rw [State.pollBody] at next
      split at ends
      · simp only [*] at next
        exact .after (.poll k) next (ih (State.move_stage_self s k _) ends)
      · simp only [*] at next
        exact .after (.poll k) next (ih (State.move_stage_self s k _) ends)
      · simp only [*] at next
        exact finishes_settle gzip (.poll k) next
      · simp only [*, if_true] at next
        exact .after (.poll k) next (finishes_decoding gzip (State.move_stage_self s k _))
      · simp only [*] at next
        dsimp only at ends
        split at ends
        · rw [if_pos ‹_›] at next
          exact finishes_settle gzip (.poll k) next
        · rw [if_neg ‹_›] at next
          exact .after (.poll k) next (ih (State.move_stage_self s k _) ends)

/-- Every compressed body comes to an end. -/
def Ends (intake : Intake κ) : Prop :=
  ∀ k, intake.compressed k = true →
    ∃ n, (collectFrames (intake.limit k) n [] (intake.body k)).1.isSome

theorem Reaches.finishes (reached : intake.Reaches events s) (ends : intake.Ends)
    (has : k ∈ intake.semaphore.held s.permits) : Finishes s k := by
  have placed := reached.orderly.placed k
  have told := reached.told k
  cases stage : s.stage k with
  | authorizing | lookingUp | settled =>
      rw [stage] at placed
      exact absurd has placed.1
  | waiting =>
      rw [stage] at placed
      obtain ⟨n, ends⟩ := ends k placed.1
      have next : s.step (.enter k) = some (s.move k (.reading [] (intake.body k))) := by
        simp only [State.step, stage, if_pos has]
      exact .after (.enter k) next
        (finishes_reading placed.1 (State.move_stage_self s k _) ends)
  | reading raw body =>
      rw [stage, Placed] at placed
      rw [stage] at told
      obtain ⟨-, -, ⟨n, same⟩, -⟩ := told
      have gzip : intake.compressed k = true := by
        by_contra plain
        rw [if_neg plain] at placed
        exact placed.1 has
      obtain ⟨m, ends⟩ := ends k gzip
      refine finishes_reading gzip stage (n := m) ?_
      rw [← same, Nat.add_comm, collectFrames_add ends]
      exact ends
  | decoding raw attached =>
      rw [stage] at placed
      exact finishes_decoding placed.1 stage

/-- The one who has waited longest gets the permit that is given back. -/
theorem Reaches.handed {q : κ} {rest : List κ} (reached : intake.Reaches events s)
    (ends : intake.Ends) (queue : intake.semaphore.queue s.permits = q :: rest) :
    ∃ more s', s.Leads more s' ∧ (∀ e ∈ more, Works e) ∧
      q ∈ intake.semaphore.held s'.permits ∧ intake.semaphore.queue s'.permits = rest := by
  have full := reached.orderly.sound.busy (by simp [queue])
  obtain ⟨k, has⟩ : ∃ k, k ∈ intake.semaphore.held s.permits := by
    apply List.exists_mem_of_ne_nil
    intro empty
    rw [empty] at full
    exact absurd full (by simp [decoders])
  obtain ⟨more, s', leads, works, -, permits⟩ := reached.finishes ends has
  obtain ⟨held, queue'⟩ := intake.semaphore.release_next has queue
  refine ⟨more, s', leads, works, ?_, by rw [permits, queue']⟩
  rw [permits, held]
  exact List.mem_cons_self

/-- The induction is on those ahead in the queue. -/
theorem Reaches.served {ahead behind : List κ} (reached : intake.Reaches events s)
    (ends : intake.Ends) (queue : intake.semaphore.queue s.permits = ahead ++ k :: behind) :
    ∃ more s', s.Leads more s' ∧ (∀ e ∈ more, Works e) ∧
      k ∈ intake.semaphore.held s'.permits := by
  induction ahead generalizing s events with
  | nil =>
      obtain ⟨more, s', leads, works, held, -⟩ := reached.handed ends queue
      exact ⟨more, s', leads, works, held⟩
  | cons first ahead ih =>
      obtain ⟨more, s', leads, works, -, queue'⟩ := reached.handed ends queue
      obtain ⟨more', s'', leads', works', held⟩ := ih (reached.trans leads) queue'
      refine ⟨more ++ more', s'', leads.trans leads', fun e he => ?_, held⟩
      exact (List.mem_append.mp he).elim (works e) (works' e)

/-- A compressed body that waits for a permit is not overtaken, and if the bodies
come to their ends, then no order of events keeps it from its answer: the events
that are left to those with permits lead there. -/
theorem intake_fair (reached : intake.Reaches events s) (waits : s.stage k = .waiting) :
    (∀ ahead behind more s', intake.semaphore.queue s.permits = ahead ++ k :: behind →
      s.Leads more s' → k ∈ intake.semaphore.queue s'.permits →
      (∃ ahead' behind', intake.semaphore.queue s'.permits = ahead' ++ k :: behind' ∧
        ahead'.Sublist ahead) ∧
      ∀ k' ∈ intake.semaphore.held s'.permits,
        k' ∈ intake.semaphore.held s.permits ∨ k' ∈ ahead) ∧
    (intake.Ends → ∃ more s' outcome, s.Leads more s' ∧ (∀ e ∈ more, Works e) ∧
      s'.stage k = .settled outcome) := by
  constructor
  · intro ahead behind more s' queue leads still
    have behind := (leads.behind reached.orderly queue).2 still
    exact ⟨behind.queued, behind.served⟩
  · intro ends
    have placed := reached.orderly.placed k
    rw [waits] at placed
    obtain ⟨more, s', leads, works, has⟩ : ∃ more s', s.Leads more s' ∧ (∀ e ∈ more, Works e) ∧
        k ∈ intake.semaphore.held s'.permits := by
      cases placed.2 with
      | inl has => exact ⟨[], s, .rest, fun e he => absurd he List.not_mem_nil, has⟩
      | inr queued =>
          obtain ⟨ahead, behind, queue⟩ := List.append_of_mem queued
          exact reached.served ends queue
    obtain ⟨more', s'', leads', works', ⟨outcome, settled⟩, -⟩ :=
      Reaches.finishes (reached.trans leads) ends has
    refine ⟨more ++ more', s'', outcome, leads.trans leads', fun e he => ?_, settled⟩
    exact (List.mem_append.mp he).elim (works e) (works' e)

/-- The upload waits behind nobody and gets its answer. -/
theorem intake_fair_login : ∃ s more s' outcome, demoIntake.Reaches demoArrivals s ∧
    s.permits = (⟨[3, 2, 1, 0], [4]⟩ : Permits Nat) ∧ s.Leads more s' ∧
    s'.stage 4 = .settled outcome := by
  obtain ⟨s, reached, permits, waits⟩ := demoArrivals_reached
  obtain ⟨-, served⟩ := intake_fair reached waits
  have ends : demoIntake.Ends := by
    intro k _
    refine ⟨2, ?_⟩
    rw [collectFrames]
    change (if _ then _ else _ : Option (Except Nat (List UInt8)) × BodyStream).1.isSome = true
    split <;> rfl
  obtain ⟨more, s', outcome, leads, -, settled⟩ := served ends
  exact ⟨s, more, s', outcome, reached, permits, leads, settled⟩

end Intake
end Xotero
