import Raidex.RaidexNode.Streaming

/-!
# Raidex.RaidexNode.Deafness

Topics whose task has closed or died.

* `tasks_open_iff`: when all tasks stay open.
* `topic_deaf`: a task that is not open keeps its topic, and serves one more line at most.
-/

namespace Raidex
namespace RaidexNode

open Json (Text)

namespace Link

variable {C : Crypto} {K : Codec} {s : Link} {t : Nat} {task task' : StreamingRequestTask}
  {r r' : Response} {i : Input}

/-- No stream is told to close, and no line breaks a task. -/
def Keeps (C : Crypto) (K : Codec) (s : Link) : Input → Prop
  | .stopListen j => ∀ t task r, s.client.listenerTaskMap.lookup j = some t →
      s.client.tasks[t]? = some task → task.response = some r → r.phase = .streaming →
        task.listeners.eraseP (fun x => x.1 = j) ≠ []
  | .read t => ∀ task r data, s.client.tasks[t]? = some task → task.response = some r →
      r.phase = .streaming → r.next s.broker.queues = some data →
        StreamingRequestTask.Serves C K (task.listeners.map fun x => x.2.kind) (streamLine data)
  | _ => True

theorem serveLine_open (hphase : r.phase = .streaming) {data : Text} :
    (task.serveLine C K r data).Open ↔
      StreamingRequestTask.Serves C K (task.listeners.map fun x => x.2.kind) (streamLine data) := by
  have hserves := @StreamingRequestTask.run_eq_none_iff C K (task.listeners.map Prod.snd)
    [streamLine data] (List.forall_mem_singleton.mpr (streamLine_ne_nil data))
  rw [List.forall_mem_singleton, List.map_map] at hserves
  refine Iff.trans ?_ hserves
  have hopen : (task.serveLine C K r data).Open ↔
      (r.phase.afterLine (StreamingRequestTask.run C K [streamLine data]
        (task.listeners.map Prod.snd)).2 = .waiting ∨
      r.phase.afterLine (StreamingRequestTask.run C K [streamLine data]
        (task.listeners.map Prod.snd)).2 = .streaming) := by
    constructor
    · intro h
      exact h _ rfl
    · rintro h r' ⟨⟩
      exact h
  rw [hopen, hphase]
  cases (StreamingRequestTask.run C K [streamLine data] (task.listeners.map Prod.snd)).2 with
  | none => simp [Response.Phase.afterLine]
  | some e => simp [Response.Phase.afterLine]

/-- A turn that keeps to the guard leaves an open task open. -/
theorem keeps_open (h : Turn C K s t task i task') (htask : s.client.tasks[t]? = some task)
    (hkeeps : Keeps C K s i) (hopen : task.Open) : task'.Open := by
  cases h with
  | joined | kept => exact hopen
  | @left j hlookup =>
    rcases task.stopListen_cases j with ⟨-, heq⟩ | ⟨hrest, heq⟩
    · rw [heq]
      exact hopen
    · rw [heq]
      intro r' hr'
      obtain ⟨r, hr, rfl⟩ := Option.map_eq_some_iff.mp hr'
      have hphase : r.phase ≠ .streaming := fun hp => hkeeps t task r hlookup htask hr hp hrest
      rw [Response.close, if_neg hphase]
      exact hopen r hr
  | connected =>
    rintro r ⟨⟩
    exact .inl rfl
  | responded =>
    rcases task.respond_cases s.broker.queues with heq | ⟨r, -, -, heq⟩
    · rw [heq]
      exact hopen
    · rw [heq]
      rintro r' ⟨⟩
      exact .inr rfl
  | read =>
    rcases task.read_cases C K s.broker.queues with heq | ⟨r, data, hr, hphase, hnext, heq⟩
    · rw [heq]
      exact hopen
    · have hstreaming : r.phase = .streaming := by
        refine hphase.resolve_right ?_
        intro hp
        rcases hopen r hr with ho | ho <;> rw [hp] at ho <;> cases ho
      rw [heq, serveLine_open hstreaming]
      exact hkeeps task r data htask hr hstreaming hnext
  | @hungUp r hr hphase =>
    rcases hphase with hp | hp <;> rcases hopen r hr with ho | ho <;> rw [hp] at ho <;> cases ho

/-- A step against the guard leaves a task that is not open. -/
theorem breaks_open (h : ¬ Keeps C K s i) :
    ∃ (t : Nat) (task' : StreamingRequestTask),
      (s.step C K i).client.tasks[t]? = some task' ∧ ¬ task'.Open := by
  cases i with
  | listenOn | connect | respond | hangUp | elsewhere => exact absurd trivial h
  | stopListen j =>
    simp only [Keeps, not_forall, not_not] at h
    obtain ⟨t, task, r, hlookup, htask, hr, hphase, hrest⟩ := h
    refine ⟨t, task.stopListen j, ?_, ?_⟩
    · simp only [step, MessageBrokerClient.stopListen, hlookup, Option.getD_some]
      rw [MessageBrokerClient.getElem?_modifyTask, htask]
      simp
    · rcases task.stopListen_cases j with ⟨hne, -⟩ | ⟨-, heq⟩
      · exact absurd hrest hne
      · intro hopen
        have hclosed := hopen { r with phase := .closing }
          (by simp [heq, hr, Response.close, hphase])
        rcases hclosed with hp | hp <;> cases hp
  | read t =>
    simp only [Keeps, not_forall] at h
    obtain ⟨task, r, data, htask, hr, hphase, hnext, hserves⟩ := h
    refine ⟨t, task.serveLine C K r data, ?_, (serveLine_open hphase).not.mpr hserves⟩
    simp only [step]
    rw [MessageBrokerClient.getElem?_modifyTask, htask]
    simp [StreamingRequestTask.read, hr, hphase, hnext]

theorem tasks_open_iff (C : Crypto) (K : Codec) (is : List Input) :
    (∀ pre, pre <+: is → ∀ task ∈ (run C K pre).client.tasks, task.Open) ↔
      LTS.AllSteps (step C K) (Keeps C K) init is := by
  refine LTS.prefixes_iff_allSteps (I := fun _ => True) (s := init)
    (P := fun _ s => ∀ task ∈ s.client.tasks, task.Open) trivial (fun _ _ _ => trivial)
    (fun task h => by cases h) ?_ ?_ is
  · intro _ s i _ hopen hkeeps task' hmem
    obtain ⟨t, htask'⟩ := List.mem_iff_getElem?.mp hmem
    rcases Turn.of_step htask' with ⟨task, htask, hturn⟩ | ⟨-, topic, kind, -, rfl⟩
    · exact keeps_open hturn htask hkeeps (hopen task (List.mem_of_getElem? htask))
    · rintro r ⟨⟩
  · intro _ s i _ _ hkeeps hopen
    obtain ⟨t, task', htask', hclosed⟩ := breaks_open hkeeps
    exact hclosed (hopen task' (List.mem_of_getElem? htask'))

/-- What can still come of a task that is not open: one line, when it waits for it to close. -/
def pending (task : StreamingRequestTask) : Nat :=
  if ∃ r ∈ task.response, r.phase = .closing then 1 else 0

theorem pending_of_phase {p : Response.Phase} (hr : task.response = some r) (hphase : r.phase = p)
    : pending task = if p = .closing then 1 else 0 := by
  unfold pending
  simp only [hr, Option.mem_some_iff, exists_eq_left', hphase]

theorem not_open_phase (hr : task.response = some r) (h : ¬ task.Open) :
    r.phase ≠ .waiting ∧ r.phase ≠ .streaming := by
  rw [← not_or]
  intro hphase
  refine h fun r' hr' => ?_
  cases hr.symm.trans hr'
  exact hphase

/-- A line adds one message to a queue at most. -/
theorem Puts.length_le {data : Text} {l l' : Listener} (h : Puts C K data l l') :
    l'.messageQueue.length ≤ l.messageQueue.length + 1 := by
  rcases h.2 with heq | heq
  · rw [heq]
    exact Nat.le_succ _
  · rw [heq, List.length_append]
    exact Nat.add_le_add_left (List.length_filterMap_le _ _) _

/-- Of a task that is not open, a turn takes what it gives to the listeners. -/
theorem turn_not_open (h : Turn C K s t task i task') (hclosed : ¬ task.Open) :
    pending task' ≤ pending task ∧ ∀ x ∈ task'.listeners, x.2.messageQueue = [] ∨
      ∃ l, (x.1, l) ∈ task.listeners ∧
        x.2.messageQueue.length + pending task' ≤ l.messageQueue.length + pending task := by
  have hstay : ∀ x ∈ task.listeners, x.2.messageQueue = [] ∨ ∃ l, (x.1, l) ∈ task.listeners ∧
      x.2.messageQueue.length + pending task ≤ l.messageQueue.length + pending task :=
    fun x hx => .inr ⟨x.2, hx, le_rfl⟩
  cases h with
  | kept => exact ⟨le_rfl, hstay⟩
  | joined =>
    refine ⟨le_rfl, ?_⟩
    intro x hx
    rcases List.mem_append.mp hx with hx | hx
    · exact hstay x hx
    · rw [List.mem_singleton.mp hx]
      exact .inl rfl
  | @left j =>
    rcases task.stopListen_cases j with ⟨-, heq⟩ | ⟨-, heq⟩
    · rw [heq]
      exact ⟨le_rfl, fun x hx => hstay x (List.mem_of_mem_eraseP hx)⟩
    · rw [heq]
      refine ⟨?_, fun x hx => by cases hx⟩
      cases hr : task.response with
      | none => exact absurd (fun r hr' => by rw [hr] at hr'; cases hr') hclosed
      | some r =>
        have hclose : r.close = r := if_neg (not_open_phase hr hclosed).2
        rw [Option.map_some, hclose, pending_of_phase hr rfl, pending_of_phase rfl rfl]
  | connected hr => exact absurd (fun r hr' => by rw [hr] at hr'; cases hr') hclosed
  | responded =>
    rcases task.respond_cases s.broker.queues with heq | ⟨r, hr, hphase, -⟩
    · rw [heq]
      exact ⟨le_rfl, hstay⟩
    · exact absurd hphase (not_open_phase hr hclosed).1
  | read =>
    rcases task.read_cases C K s.broker.queues with heq | ⟨r, data, hr, hphase, -, heq⟩
    · rw [heq]
      exact ⟨le_rfl, hstay⟩
    · have hclosing := hphase.resolve_left (not_open_phase hr hclosed).2
      have hbefore : pending task = 1 := (pending_of_phase hr hclosing).trans (if_pos rfl)
      have hafter : pending (task.serveLine C K r data) = 0 := by
        refine (pending_of_phase rfl rfl).trans (if_neg ?_)
        rw [hclosing]
        cases (StreamingRequestTask.run C K [streamLine data] (task.listeners.map Prod.snd)).2 with
        | none => simp [Response.Phase.afterLine]
        | some e => simp [Response.Phase.afterLine]
      rw [heq, hbefore, hafter]
      refine ⟨Nat.zero_le _, ?_⟩
      intro x hx
      obtain ⟨l, hl, hputs⟩ := List.exists_of_mem_zip (run_puts (C := C) (K := K) data _) hx
      exact .inr ⟨l, hl, hputs.length_le⟩
  | @hungUp r =>
    have hafter : pending { task with response := some { r with phase := .hungUp } } = 0 :=
      (pending_of_phase rfl rfl).trans (if_neg (by simp))
    rw [hafter]
    exact ⟨Nat.zero_le _, fun x hx => .inr ⟨x.2, hx, Nat.le_add_right _ _⟩⟩

/-- A task that is not open, and how many messages its new listeners may still get. -/
structure Deaf (first : Nat) (n : Nat) (task : StreamingRequestTask) : Prop where
  closed : ¬ task.Open
  pending_le : pending task ≤ n
  length_le : ∀ x ∈ task.listeners, first ≤ x.1 → x.2.messageQueue.length + pending task ≤ n

theorem Deaf.turn {first n : Nat} (h : Deaf first n task) (hturn : Turn C K s t task i task') :
    Deaf first n task' := by
  obtain ⟨hpending, hlisteners⟩ := turn_not_open hturn h.closed
  refine ⟨fun hopen => h.closed (hturn.open hopen), hpending.trans h.pending_le, ?_⟩
  intro x hx hfirst
  rcases hlisteners x hx with hnil | ⟨l, hl, hle⟩
  · rw [hnil, List.length_nil, Nat.zero_add]
    exact hpending.trans h.pending_le
  · exact hle.trans (h.length_le _ hl hfirst)

theorem Deaf.run {first n : Nat} (h : Deaf first n task) (htask : s.client.tasks[t]? = some task)
    (is : List Input) : ∃ task', (LTS.run (step C K) s is).client.tasks[t]? = some task' ∧
      Deaf first n task' :=
  LTS.run_invariant (step C K)
    (fun _ s => ∃ task : StreamingRequestTask, s.client.tasks[t]? = some task ∧ Deaf first n task)
    ⟨task, htask, h⟩
    (fun _ s i hs => by
      obtain ⟨task, htask, hdeaf⟩ := hs
      obtain ⟨task', htask', hturn⟩ := Turn.exists C K htask i
      exact ⟨task', htask', hdeaf.turn hturn⟩) is

/-- All tasks stay open exactly as long as nobody stops the last listener of a topic whose stream
has begun and every line is served. A task that is not open keeps its topic, and whoever listens
on it from then on gets the one message that a closing task still waits for, or nothing. -/
theorem topic_deaf (C : Crypto) (K : Codec) (is : List Input) :
    ((∀ pre, pre <+: is → ∀ task ∈ (run C K pre).client.tasks, task.Open) ↔
      LTS.AllSteps (step C K) (Keeps C K) init is) ∧
    ∀ topic t task, (run C K is).client.topicTaskMap.lookup topic = some t →
      (run C K is).client.tasks[t]? = some task → ¬ task.Open → ∀ post,
        (run C K (is ++ post)).client.topicTaskMap.lookup topic = some t ∧
        ∃ task', (run C K (is ++ post)).client.tasks[t]? = some task' ∧ ¬ task'.Open ∧
          ∀ x ∈ task'.listeners, (run C K is).client.made ≤ x.1 →
            x.2.messageQueue.length ≤ pending task := by
  refine ⟨tasks_open_iff C K is, ?_⟩
  intro topic t task hlookup htask hclosed post
  have hrun : run C K (is ++ post) = LTS.run (step C K) (run C K is) post := LTS.run_append _ _ _
  have hcounted : Counted (run C K is) :=
    LTS.run_invariant (step C K) (fun _ s => Counted s) (fun t task h => by cases h)
      (fun _ _ i h => h.step i) is
  have hlookup' : (run C K (is ++ post)).client.topicTaskMap.lookup topic = some t :=
    hrun ▸ LTS.run_invariant (step C K) (fun _ s => s.client.topicTaskMap.lookup topic = some t)
      hlookup (fun _ _ i h => lookup_step h i) post
  -- there is no new listener yet
  have hdeaf : Deaf (run C K is).client.made (pending task) task :=
    ⟨hclosed, le_rfl, fun x hx hle => absurd (hcounted t task htask x hx) (Nat.not_lt.mpr hle)⟩
  obtain ⟨task', htask', hdeaf'⟩ := hdeaf.run htask post
  refine ⟨hlookup', task', hrun ▸ htask', hdeaf'.closed, ?_⟩
  intro x hx hle
  exact (Nat.le_add_right _ _).trans (hdeaf'.length_le x hx hle)

end Link

end RaidexNode
end Raidex
