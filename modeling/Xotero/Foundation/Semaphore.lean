import Mathlib.Data.List.Basic
import Mathlib.Data.List.Nodup
import Mathlib.Data.List.Perm.Basic

/-!
Counting semaphores that serve their users in turn, seen from outside: who holds
a permit and who waits for one. What the operations do is given by their laws;
`Permits` is a semaphore that has them.
-/

structure Semaphore (ω : Type) [DecidableEq ω] (total : Nat) where
  State : Type
  initial : State
  held : State → List ω
  queue : State → List ω
  acquire : State → ω → State
  release : State → ω → State
  /-- A user stops waiting. -/
  leave : State → ω → State
  held_initial : held initial = []
  queue_initial : queue initial = []
  acquire_free : ∀ {s k}, (held s).length < total →
    held (acquire s k) = k :: held s ∧ queue (acquire s k) = queue s
  acquire_full : ∀ {s k}, ¬ (held s).length < total →
    held (acquire s k) = held s ∧ queue (acquire s k) = queue s ++ [k]
  /-- A permit nobody waits for is free again. -/
  release_idle : ∀ {s k}, k ∈ held s → queue s = [] →
    held (release s k) = (held s).erase k ∧ queue (release s k) = []
  /-- Else it goes to the user who has waited longest. -/
  release_next : ∀ {s k q rest}, k ∈ held s → queue s = q :: rest →
    held (release s k) = q :: (held s).erase k ∧ queue (release s k) = rest
  leave_eq : ∀ {s k}, k ∈ queue s →
    held (leave s k) = held s ∧ queue (leave s k) = (queue s).erase k

namespace Semaphore
variable {ω : Type} [DecidableEq ω] {total : Nat} (sem : Semaphore ω total)

/-- No more permits than there are, none twice, and nobody waits beside a free one. -/
structure Sound (s : sem.State) : Prop where
  bounded : (sem.held s).length ≤ total
  apart : (sem.held s ++ sem.queue s).Nodup
  busy : sem.queue s ≠ [] → (sem.held s).length = total

variable {sem} {s : sem.State} {k : ω}

theorem sound_initial : sem.Sound sem.initial where
  bounded := by simp [sem.held_initial]
  apart := by simp [sem.held_initial, sem.queue_initial]
  busy waits := absurd sem.queue_initial waits

theorem Sound.acquire (h : sem.Sound s) (new : k ∉ sem.held s) (new' : k ∉ sem.queue s) :
    sem.Sound (sem.acquire s k) := by
  have nodup := List.nodup_append'.mp h.apart
  by_cases room : (sem.held s).length < total
  · obtain ⟨held, queue⟩ := sem.acquire_free (k := k) room
    refine ⟨?_, ?_, fun waits => ?_⟩
    · rw [held, List.length_cons]
      omega
    · rw [held, queue, List.cons_append, List.nodup_cons, List.mem_append]
      exact ⟨fun hk => hk.elim new new', h.apart⟩
    · rw [queue] at waits
      have full := h.busy waits
      omega
  · obtain ⟨held, queue⟩ := sem.acquire_full (k := k) room
    have bound := h.bounded
    refine ⟨held ▸ bound, ?_, fun _ => ?_⟩
    · rw [held, queue, ← List.append_assoc, List.nodup_append']
      refine ⟨h.apart, List.nodup_singleton k, ?_⟩
      intro x hx hk
      cases List.mem_singleton.mp hk
      exact (List.mem_append.mp hx).elim new new'
    · rw [held]
      omega

theorem Sound.release (h : sem.Sound s) (has : k ∈ sem.held s) :
    sem.Sound (sem.release s k) := by
  have nodup := List.nodup_append'.mp h.apart
  have fewer := List.length_erase_of_mem has
  have bound := h.bounded
  cases waiting : sem.queue s with
  | nil =>
      obtain ⟨held, queue⟩ := sem.release_idle has waiting
      refine ⟨?_, ?_, fun waits => absurd queue waits⟩
      · rw [held]
        omega
      · rw [held, queue, List.append_nil]
        exact nodup.1.erase k
  | cons q rest =>
      obtain ⟨held, queue⟩ := sem.release_next has waiting
      have full := h.busy (by rw [waiting]; exact List.cons_ne_nil q rest)
      have some := List.length_pos_of_mem has
      have parts := h.apart
      rw [waiting] at parts
      have moved : (sem.held s ++ q :: rest).Perm (q :: sem.held s ++ rest) := List.perm_middle
      refine ⟨?_, ?_, fun _ => ?_⟩
      · rw [held, List.length_cons]
        omega
      · rw [held, queue]
        refine (moved.nodup_iff.mp parts).sublist ?_
        exact ((List.erase_sublist).cons_cons q).append_right rest
      · rw [held, List.length_cons]
        omega

theorem Sound.leave (h : sem.Sound s) (waits : k ∈ sem.queue s) : sem.Sound (sem.leave s k) := by
  obtain ⟨held, queue⟩ := sem.leave_eq waits
  refine ⟨held ▸ h.bounded, ?_, fun _ => ?_⟩
  · rw [held, queue]
    exact h.apart.sublist (List.erase_sublist.append_left _)
  · rw [held]
    exact h.busy (List.ne_nil_of_mem waits)

/-! ### One user's view of what another one does -/

variable {k' : ω}

theorem mem_acquire (s : sem.State) (k : ω) :
    k ∈ sem.held (sem.acquire s k) ∨ k ∈ sem.queue (sem.acquire s k) := by
  by_cases room : (sem.held s).length < total
  · exact .inl (by simp [sem.acquire_free room])
  · exact .inr (by simp [sem.acquire_full room])

theorem held_acquire_ne (other : k' ≠ k) :
    k' ∈ sem.held (sem.acquire s k) ↔ k' ∈ sem.held s := by
  by_cases room : (sem.held s).length < total
  · simp [sem.acquire_free room, other]
  · simp [sem.acquire_full room]

theorem queue_acquire_ne (other : k' ≠ k) :
    k' ∈ sem.queue (sem.acquire s k) ↔ k' ∈ sem.queue s := by
  by_cases room : (sem.held s).length < total
  · simp [sem.acquire_free room]
  · simp [sem.acquire_full room, other]

theorem not_mem_release (h : sem.Sound s) (has : k ∈ sem.held s) :
    k ∉ sem.held (sem.release s k) ∧ k ∉ sem.queue (sem.release s k) := by
  have nodup := List.nodup_append'.mp h.apart
  have gone : k ∉ (sem.held s).erase k :=
    fun hk => (List.Nodup.mem_erase_iff nodup.1).mp hk |>.1 rfl
  have unqueued : k ∉ sem.queue s := fun hk => nodup.2.2 has hk
  cases waiting : sem.queue s with
  | nil =>
      obtain ⟨held, queue⟩ := sem.release_idle has waiting
      exact ⟨held ▸ gone, by simp [queue]⟩
  | cons q rest =>
      obtain ⟨held, queue⟩ := sem.release_next has waiting
      rw [waiting, List.mem_cons, not_or] at unqueued
      rw [held, queue, List.mem_cons, not_or]
      exact ⟨⟨unqueued.1, gone⟩, unqueued.2⟩

/-- A user who waits or holds goes on to do one of the two. -/
theorem mem_release_ne (has : k ∈ sem.held s) (other : k' ≠ k) :
    (k' ∈ sem.held (sem.release s k) ∨ k' ∈ sem.queue (sem.release s k)) ↔
      (k' ∈ sem.held s ∨ k' ∈ sem.queue s) := by
  have same : k' ∈ (sem.held s).erase k ↔ k' ∈ sem.held s := List.mem_erase_of_ne other
  cases waiting : sem.queue s with
  | nil => rw [(sem.release_idle has waiting).1, (sem.release_idle has waiting).2, same]
  | cons q rest =>
      rw [(sem.release_next has waiting).1, (sem.release_next has waiting).2, List.mem_cons, same,
        List.mem_cons]
      tauto

theorem held_release_ne (has : k ∈ sem.held s) (other : k' ≠ k) (here : k' ∈ sem.held s) :
    k' ∈ sem.held (sem.release s k) := by
  have same : k' ∈ (sem.held s).erase k := (List.mem_erase_of_ne other).mpr here
  cases waiting : sem.queue s with
  | nil => rwa [(sem.release_idle has waiting).1]
  | cons q rest =>
      rw [(sem.release_next has waiting).1]
      exact List.mem_cons_of_mem q same

theorem not_mem_leave (h : sem.Sound s) (waits : k ∈ sem.queue s) :
    k ∉ sem.held (sem.leave s k) ∧ k ∉ sem.queue (sem.leave s k) := by
  have nodup := List.nodup_append'.mp h.apart
  rw [(sem.leave_eq waits).1, (sem.leave_eq waits).2]
  exact ⟨fun hk => nodup.2.2 hk waits,
    fun hk => (List.Nodup.mem_erase_iff nodup.2.1).mp hk |>.1 rfl⟩

theorem mem_leave_ne (waits : k ∈ sem.queue s) (other : k' ≠ k) :
    (k' ∈ sem.held (sem.leave s k) ↔ k' ∈ sem.held s) ∧
      (k' ∈ sem.queue (sem.leave s k) ↔ k' ∈ sem.queue s) := by
  rw [(sem.leave_eq waits).1, (sem.leave_eq waits).2, List.mem_erase_of_ne other]
  exact ⟨.rfl, .rfl⟩

/-! ### In turn -/

/-- What one user does to the semaphore. -/
inductive Turn (k : ω) (s : sem.State) : sem.State → Prop where
  | rest : Turn k s s
  | acquire (new : k ∉ sem.held s) (new' : k ∉ sem.queue s) : Turn k s (sem.acquire s k)
  | release (has : k ∈ sem.held s) : Turn k s (sem.release s k)
  | leave (waits : k ∈ sem.queue s) : Turn k s (sem.leave s k)

theorem Turn.sound {s' : sem.State} (turn : sem.Turn k s s') (h : sem.Sound s) : sem.Sound s' := by
  cases turn with
  | rest => exact h
  | acquire new new' => exact h.acquire new new'
  | release has => exact h.release has
  | leave waits => exact h.leave waits

/-- The other users keep what they hold, and those who wait go on to wait or hold. -/
theorem Turn.others {s' : sem.State} (turn : sem.Turn k s s') (other : k' ≠ k) :
    ((k' ∈ sem.held s' ∨ k' ∈ sem.queue s') ↔ (k' ∈ sem.held s ∨ k' ∈ sem.queue s)) ∧
      (k' ∈ sem.held s → k' ∈ sem.held s') := by
  cases turn with
  | rest => exact ⟨.rfl, id⟩
  | acquire new new' =>
      exact ⟨or_congr (held_acquire_ne other) (queue_acquire_ne other), (held_acquire_ne other).mpr⟩
  | release has => exact ⟨mem_release_ne has other, held_release_ne has other⟩
  | leave waits =>
      obtain ⟨same, same'⟩ := mem_leave_ne waits other
      exact ⟨or_congr same same', same.mpr⟩

/-- A user with a permit is not in the queue next. -/
theorem Turn.unqueued {s' : sem.State} {q : ω} (turn : sem.Turn q s s') (h : sem.Sound s)
    (has : k ∈ sem.held s) : k ∉ sem.queue s' := by
  have apart := (List.nodup_append'.mp h.apart).2.2
  by_cases same : k = q
  · subst same
    cases turn with
    | rest => exact apart has
    | acquire new => exact absurd has new
    | release => exact (not_mem_release h has).2
    | leave waits => exact absurd waits (apart has)
  · have apart' := (List.nodup_append'.mp (turn.sound h).apart).2.2
    exact apart' ((turn.others same).2 has)

/-- `k` waits behind some of `ahead` and no others, and of those who held no permit
before only these have got one. -/
structure Behind (ahead held : List ω) (k : ω) (s : sem.State) : Prop where
  queued : ∃ ahead' behind, sem.queue s = ahead' ++ k :: behind ∧ ahead'.Sublist ahead
  served : ∀ k' ∈ sem.held s, k' ∈ held ∨ k' ∈ ahead

/-- Nobody is served before a user who waits longer. -/
theorem Behind.turn {ahead held : List ω} {s' : sem.State} (behind : sem.Behind ahead held k s)
    (h : sem.Sound s) {q : ω} (turn : sem.Turn q s s') (waits : k ∈ sem.queue s') :
    sem.Behind ahead held k s' := by
  obtain ⟨⟨ahead', rest, queue, sub⟩, served⟩ := behind
  have full : (sem.held s).length = total := h.busy (by rw [queue]; simp)
  cases turn with
  | rest => exact ⟨⟨ahead', rest, queue, sub⟩, served⟩
  | acquire new new' =>
      obtain ⟨same, queue'⟩ := sem.acquire_full (s := s) (k := q) (by omega)
      refine ⟨⟨ahead', rest ++ [q], ?_, sub⟩, fun k' hk => served k' (same ▸ hk)⟩
      rw [queue', queue, List.append_assoc, List.cons_append]
  | release has =>
      cases ahead' with
      | nil =>
          have last := List.nodup_append'.mp (h.release has).apart
          have now := sem.release_next has queue
          refine absurd waits (last.2.2 ?_)
          rw [now.1]
          exact List.mem_cons_self
      | cons first ahead' =>
          obtain ⟨held', queue'⟩ := sem.release_next has queue
          refine ⟨⟨ahead', rest, queue', (List.sublist_cons_self first ahead').trans sub⟩, ?_⟩
          intro k' hk
          rw [held', List.mem_cons] at hk
          cases hk with
          | inl same => exact .inr (same ▸ sub.subset List.mem_cons_self)
          | inr old => exact served k' (List.mem_of_mem_erase old)
  | leave gone =>
      obtain ⟨same, queue'⟩ := sem.leave_eq gone
      have parts := (List.nodup_append'.mp h.apart).2.1
      have stays : q ≠ k := by
        intro me
        subst me
        rw [queue'] at waits
        exact (List.Nodup.mem_erase_iff parts).mp waits |>.1 rfl
      by_cases before : q ∈ ahead'
      · refine ⟨⟨ahead'.erase q, rest, ?_, List.erase_sublist.trans sub⟩,
          fun k' hk => served k' (same ▸ hk)⟩
        rw [queue', queue, List.erase_append_left _ before]
      · refine ⟨⟨ahead', rest.erase q, ?_, sub⟩, fun k' hk => served k' (same ▸ hk)⟩
        rw [queue', queue, List.erase_append_right _ before,
          List.erase_cons_tail (by simpa using stays.symm)]

end Semaphore

/-! ### A semaphore -/

/-- The holders and those who wait, the longest waiting first. -/
structure Permits (ω : Type) where
  held : List ω
  queue : List ω

namespace Permits
variable {ω : Type} [DecidableEq ω]

def release (s : Permits ω) (k : ω) : Permits ω :=
  if k ∈ s.held then
    match s.queue with
    | [] => ⟨s.held.erase k, []⟩
    | q :: rest => ⟨q :: s.held.erase k, rest⟩
  else s

def semaphore (ω : Type) [DecidableEq ω] (total : Nat) : Semaphore ω total where
  State := Permits ω
  initial := ⟨[], []⟩
  held := Permits.held
  queue := Permits.queue
  acquire s k :=
    if s.held.length < total then ⟨k :: s.held, s.queue⟩ else ⟨s.held, s.queue ++ [k]⟩
  release := release
  leave s k := ⟨s.held, s.queue.erase k⟩
  held_initial := rfl
  queue_initial := rfl
  acquire_free room := by simp [room]
  acquire_full full := by simp [full]
  release_idle has idle := by simp [release, has, idle]
  release_next has waiting := by simp [release, has, waiting]
  leave_eq _ := ⟨rfl, rfl⟩

end Permits
