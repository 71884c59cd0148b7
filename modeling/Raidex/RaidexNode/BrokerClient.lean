import Raidex.MessageBroker
import Raidex.RaidexNode.Transport

/-!
# Raidex.RaidexNode.BrokerClient

The client of the message broker: one request per topic, and the listeners it serves.

The server turns a request into a listener of its own and streams what this listener gets. A queue
of the broker is never emptied here; the response says how much of it has been read. Everybody
else who uses the broker is in the input `elsewhere`.

* `Link.step`: what the client and the server do, in any order.
* `Turn`: what a step does to a task; `Turn.exists`, `Turn.of_step`: every task has its turn.
* `Turn.place_cases`: what a turn does to response and listeners.
-/

namespace Raidex
namespace RaidexNode

open Json (Text)

/-! ## Tasks -/

/-- `waiting` is for the first message: the request returns with it. A `closing` task has been
told to close, and still waits for a line. -/
inductive Response.Phase where
  | waiting
  | streaming
  | closing
  | closed
  | failed
  | hungUp
  deriving DecidableEq

/-- The listener that the server made for the request, and how far its messages are read. -/
structure Response where
  queue : Nat
  read : Nat
  phase : Response.Phase

/-- A listener goes by the number of listeners that were made before it. -/
structure StreamingRequestTask where
  topic : Topic
  listeners : List (Nat × Listener)
  response : Option Response

/-- `close` of the iterator. There is none before the first message. -/
def Response.close (r : Response) : Response :=
  if r.phase = .streaming then { r with phase := .closing } else r

/-- The next message of the response. -/
def Response.next (r : Response) (queues : List (List Text)) : Option Text :=
  queues[r.queue]? >>= fun queue => queue[r.read]?

/-- After a line the iterator closes when it was told to. -/
def Response.Phase.afterLine (phase : Phase) (error : Option OpenError) : Phase :=
  match error, phase with
  | some _, _ => .failed
  | none, .closing => .closed
  | none, phase => phase

namespace StreamingRequestTask

def new (topic : Topic) : StreamingRequestTask where
  topic := topic
  listeners := []
  response := none

def hasListeners (task : StreamingRequestTask) : Bool := !task.listeners.isEmpty

def createListener (task : StreamingRequestTask) (i : Nat) (kind : ListenerKind) :
    StreamingRequestTask :=
  { task with listeners := task.listeners ++ [(i, .new kind)] }

def stop (task : StreamingRequestTask) : StreamingRequestTask :=
  { task with response := task.response.map Response.close }

/-- `stop_listen`, and `stop` when no listener is left -/
def stopListen (task : StreamingRequestTask) (i : Nat) : StreamingRequestTask :=
  let rest := { task with listeners := task.listeners.eraseP fun x => x.1 = i }
  if rest.hasListeners then rest else rest.stop

/-- `requests.get` returns. -/
def respond (queues : List (List Text)) (task : StreamingRequestTask) : StreamingRequestTask :=
  match task.response with
  | none => task
  | some r =>
    if r.phase = .waiting ∧ (r.next queues).isSome then
      { task with response := some { r with phase := .streaming } }
    else task

/-- One line of the loop of `_run`. -/
def serveLine (C : Crypto) (K : Codec) (task : StreamingRequestTask) (r : Response) (data : Text) :
    StreamingRequestTask :=
  let served := run C K [streamLine data] (task.listeners.map Prod.snd)
  { task with
    listeners := (task.listeners.map Prod.fst).zip served.1
    response := some { r with read := r.read + 1, phase := r.phase.afterLine served.2 } }

def read (C : Crypto) (K : Codec) (queues : List (List Text)) (task : StreamingRequestTask) :
    StreamingRequestTask :=
  match task.response with
  | none => task
  | some r =>
    if r.phase = .streaming ∨ r.phase = .closing then
      match r.next queues with
      | none => task
      | some data => task.serveLine C K r data
    else task

end StreamingRequestTask

/-! ## The client -/

/-- `made` counts the listeners. -/
structure MessageBrokerClient where
  topicTaskMap : Dict Topic Nat
  listenerTaskMap : Dict Nat Nat
  tasks : List StreamingRequestTask
  made : Nat

namespace MessageBrokerClient

def init : MessageBrokerClient where
  topicTaskMap := ∅
  listenerTaskMap := ∅
  tasks := []
  made := 0

def modifyTask (c : MessageBrokerClient) (t : Nat)
    (f : StreamingRequestTask → StreamingRequestTask) : MessageBrokerClient :=
  { c with tasks := c.tasks.modify t f }

/-- The task of the topic, started when there is none. -/
def taskOf (c : MessageBrokerClient) (topic : Topic) : MessageBrokerClient × Nat :=
  match c.topicTaskMap.lookup topic with
  | some t => (c, t)
  | none =>
    ({ c with
       topicTaskMap := c.topicTaskMap.insert topic c.tasks.length
       tasks := c.tasks ++ [.new topic] }, c.tasks.length)

def createListener (c : MessageBrokerClient) (t : Nat) (kind : ListenerKind) :
    MessageBrokerClient :=
  { c.modifyTask t fun task => task.createListener c.made kind with
    listenerTaskMap := c.listenerTaskMap.insert c.made t
    made := c.made + 1 }

/-- `_listen_on` -/
def listenOn (c : MessageBrokerClient) (topic : Topic) (kind : ListenerKind) :
    MessageBrokerClient :=
  (c.taskOf topic).1.createListener (c.taskOf topic).2 kind

/-- `none` when the listener is not found. -/
def stopListen (c : MessageBrokerClient) (i : Nat) : Option MessageBrokerClient :=
  match c.listenerTaskMap.lookup i with
  | none => none
  | some t =>
    some { c.modifyTask t fun task => task.stopListen i with
           listenerTaskMap := c.listenerTaskMap.erase i }

end MessageBrokerClient

/-! ## The client and the server -/

structure Link where
  broker : MessageBroker Text
  client : MessageBrokerClient

inductive Link.Input where
  | listenOn (topic : Topic) (kind : ListenerKind)
  | stopListen (i : Nat)
  | connect (t : Nat)
  | respond (t : Nat)
  | read (t : Nat)
  | hangUp (t : Nat)
  | elsewhere (c : MessageBroker.Call Text)

namespace Link

def init : Link where
  broker := .init
  client := .init

/-- `messages_for` of the server -/
def connect (s : Link) (t : Nat) : Link :=
  match s.client.tasks[t]? with
  | none => s
  | some task =>
    match task.response with
    | some _ => s
    | none =>
      let made := s.broker.listenOn task.topic (some id)
      { broker := made.1
        client := s.client.modifyTask t fun task =>
          { task with response := some ⟨made.2.messageQueueAsync, 0, .waiting⟩ } }

/-- `on_close` of the server, once the client has closed the response or dropped it. -/
def hangUp (s : Link) (t : Nat) : Link :=
  match s.client.tasks[t]? with
  | none => s
  | some task =>
    match task.response with
    | none => s
    | some r =>
      if r.phase = .closed ∨ r.phase = .failed then
        { broker := s.broker.stopListen ⟨task.topic, r.queue, some id⟩
          client := s.client.modifyTask t fun task =>
            { task with response := some { r with phase := .hungUp } } }
      else s

variable (C : Crypto) (K : Codec)

def step (s : Link) : Input → Link
  | .listenOn topic kind => { s with client := s.client.listenOn topic kind }
  | .stopListen i => { s with client := (s.client.stopListen i).getD s.client }
  | .connect t => s.connect t
  | .respond t => { s with client := s.client.modifyTask t (.respond s.broker.queues) }
  | .read t => { s with client := s.client.modifyTask t (.read C K s.broker.queues) }
  | .hangUp t => s.hangUp t
  | .elsewhere c => { s with broker := s.broker.step c }

def run (is : List Input) : Link := LTS.run (step C K) init is

/-- Others stop their own listeners. -/
def Admits (s : Link) : Input → Prop
  | .elsewhere c => MessageBroker.Valid s.broker c ∧
      ∀ task ∈ s.client.tasks, ∀ r ∈ task.response, ¬ c.Stops r.queue
  | _ => True

end Link

/-! ## What a step does to a task -/

/-- The task still takes part in its topic: no close, no exception. -/
def StreamingRequestTask.Open (task : StreamingRequestTask) : Prop :=
  ∀ r ∈ task.response, r.phase = .waiting ∨ r.phase = .streaming

/-- What becomes of task `t` in a step. -/
inductive Turn (C : Crypto) (K : Codec) (s : Link) (t : Nat) (task : StreamingRequestTask) :
    Link.Input → StreamingRequestTask → Prop where
  | joined {topic : Topic} {kind : ListenerKind} (h : s.client.topicTaskMap.lookup topic = some t) :
      Turn C K s t task (.listenOn topic kind) (task.createListener s.client.made kind)
  | left {i : Nat} (h : s.client.listenerTaskMap.lookup i = some t) :
      Turn C K s t task (.stopListen i) (task.stopListen i)
  | connected (h : task.response = none) :
      Turn C K s t task (.connect t)
        { task with response := some ⟨s.broker.queues.length, 0, .waiting⟩ }
  | responded : Turn C K s t task (.respond t) (task.respond s.broker.queues)
  | read : Turn C K s t task (.read t) (task.read C K s.broker.queues)
  | hungUp {r : Response} (h : task.response = some r)
      (hphase : r.phase = .closed ∨ r.phase = .failed) :
      Turn C K s t task (.hangUp t) { task with response := some { r with phase := .hungUp } }
  | kept {i : Link.Input} : Turn C K s t task i task

section

variable {C : Crypto} {K : Codec} {s : Link} {t : Nat} {task task' : StreamingRequestTask}
  {i : Link.Input}

theorem MessageBrokerClient.getElem?_modifyTask (c : MessageBrokerClient) (t t' : Nat)
    (f : StreamingRequestTask → StreamingRequestTask) :
    (c.modifyTask t f).tasks[t']? =
      c.tasks[t']?.map fun task => if t = t' then f task else task := by
  rw [modifyTask, List.getElem?_modify]
  split_ifs <;> rfl

/-- The new task of `taskOf` is the last one. -/
theorem MessageBrokerClient.getElem?_taskOf {c : MessageBrokerClient} (topic : Topic) {t : Nat}
    {task : StreamingRequestTask} (h : c.tasks[t]? = some task) :
    (c.taskOf topic).1.tasks[t]? = some task ∧
      ((c.taskOf topic).2 = t → c.topicTaskMap.lookup topic = some t) := by
  have hlt := (List.getElem?_eq_some_iff.mp h).1
  unfold taskOf
  cases hlookup : c.topicTaskMap.lookup topic with
  | some t' => exact ⟨h, fun heq => congrArg some heq⟩
  | none =>
    refine ⟨(List.getElem?_append_left hlt).trans h, ?_⟩
    intro heq
    exact absurd heq (Nat.ne_of_gt hlt)

theorem MessageBrokerClient.taskOf_made (c : MessageBrokerClient) (topic : Topic) :
    (c.taskOf topic).1.made = c.made := by
  unfold taskOf
  split <;> rfl

theorem Link.connect_eq (htask : s.client.tasks[t]? = some task)
    (hresponse : task.response = none) :
    s.connect t =
      { broker := s.broker.step (.listenOn task.topic (some id))
        client := s.client.modifyTask t fun task =>
          { task with response := some ⟨s.broker.queues.length, 0, .waiting⟩ } } := by
  unfold connect
  rw [htask]
  dsimp only
  rw [hresponse]
  simp only [MessageBroker.listenOn_queue]
  rfl

theorem Link.connect_cases (s : Link) (t : Nat) : s.connect t = s ∨
    ∃ task, s.client.tasks[t]? = some task ∧ task.response = none ∧ s.connect t =
      { broker := s.broker.step (.listenOn task.topic (some id))
        client := s.client.modifyTask t fun task =>
          { task with response := some ⟨s.broker.queues.length, 0, .waiting⟩ } } := by
  cases htask : s.client.tasks[t]? with
  | none =>
    refine .inl ?_
    rw [connect, htask]
  | some task =>
    cases hresponse : task.response with
    | none => exact .inr ⟨task, rfl, hresponse, Link.connect_eq htask hresponse⟩
    | some r =>
      refine .inl ?_
      rw [connect, htask]
      dsimp only
      rw [hresponse]

theorem Link.hangUp_cases (s : Link) (t : Nat) : s.hangUp t = s ∨
    ∃ task r, s.client.tasks[t]? = some task ∧ task.response = some r ∧
      (r.phase = .closed ∨ r.phase = .failed) ∧ s.hangUp t =
      { broker := s.broker.step (.stopListen ⟨task.topic, r.queue, some id⟩)
        client := s.client.modifyTask t fun task =>
          { task with response := some { r with phase := .hungUp } } } := by
  unfold hangUp
  split
  next => exact .inl rfl
  next task htask =>
    split
    next => exact .inl rfl
    next r hresponse =>
      split_ifs with hphase
      · exact .inr ⟨task, r, htask, hresponse, hphase, rfl⟩
      · exact .inl rfl

/-- A task goes on as itself or is changed in place. -/
theorem Turn.of_modifyTask {f : StreamingRequestTask → StreamingRequestTask} {t' : Nat}
    {c : MessageBrokerClient} (h : c.tasks[t]? = some task)
    (hturn : t' = t → Turn C K s t task i (f task)) :
    ∃ task', (c.modifyTask t' f).tasks[t]? = some task' ∧ Turn C K s t task i task' := by
  rw [MessageBrokerClient.getElem?_modifyTask, h]
  by_cases heq : t' = t
  · exact ⟨f task, congrArg some (if_pos heq), hturn heq⟩
  · exact ⟨task, congrArg some (if_neg heq), .kept⟩

theorem Turn.exists (C : Crypto) (K : Codec) (h : s.client.tasks[t]? = some task)
    (i : Link.Input) :
    ∃ task', (s.step C K i).client.tasks[t]? = some task' ∧ Turn C K s t task i task' := by
  cases i with
  | listenOn topic kind =>
    obtain ⟨htask, hlookup⟩ := MessageBrokerClient.getElem?_taskOf topic h
    refine Turn.of_modifyTask htask ?_
    intro heq
    rw [MessageBrokerClient.taskOf_made]
    exact .joined (hlookup heq)
  | stopListen j =>
    simp only [Link.step, MessageBrokerClient.stopListen]
    cases hlookup : s.client.listenerTaskMap.lookup j with
    | none => exact ⟨task, h, .kept⟩
    | some t' => exact Turn.of_modifyTask h fun heq => .left (heq ▸ hlookup)
  | connect t' =>
    rcases s.connect_cases t' with heq | ⟨x, hx, hresponse, heq⟩
    · refine ⟨task, ?_, .kept⟩
      simp only [Link.step, heq]
      exact h
    · simp only [Link.step, heq]
      refine Turn.of_modifyTask h ?_
      rintro rfl
      cases hx.symm.trans h
      exact .connected hresponse
  | respond t' => exact Turn.of_modifyTask h fun heq => heq ▸ .responded
  | read t' => exact Turn.of_modifyTask h fun heq => heq ▸ .read
  | hangUp t' =>
    rcases s.hangUp_cases t' with heq | ⟨x, r, hx, hresponse, hphase, heq⟩
    · refine ⟨task, ?_, .kept⟩
      simp only [Link.step, heq]
      exact h
    · simp only [Link.step, heq]
      refine Turn.of_modifyTask h ?_
      rintro rfl
      cases hx.symm.trans h
      exact .hungUp hresponse hphase
  | elsewhere c => exact ⟨task, h, .kept⟩

/-- A task of the new state was a task before, or is the one of a new topic. -/
theorem Turn.of_step (h : (s.step C K i).client.tasks[t]? = some task') :
    (∃ task, s.client.tasks[t]? = some task ∧ Turn C K s t task i task') ∨
    s.client.tasks[t]? = none ∧ ∃ topic kind, i = .listenOn topic kind ∧
      task' = (StreamingRequestTask.new topic).createListener s.client.made kind := by
  cases htask : s.client.tasks[t]? with
  | some task =>
    obtain ⟨x, hx, hturn⟩ := Turn.exists C K htask i
    cases hx.symm.trans h
    exact .inl ⟨task, rfl, hturn⟩
  | none =>
    have hnone : ∀ t' f, (s.client.modifyTask t' f).tasks[t]? = none := by
      intro t' f
      rw [MessageBrokerClient.getElem?_modifyTask, htask]
      rfl
    refine .inr ⟨rfl, ?_⟩
    cases i with
    | listenOn topic kind =>
      refine ⟨topic, kind, rfl, ?_⟩
      simp only [Link.step, MessageBrokerClient.listenOn, MessageBrokerClient.createListener,
        MessageBrokerClient.getElem?_modifyTask] at h
      unfold MessageBrokerClient.taskOf at h
      cases hlookup : s.client.topicTaskMap.lookup topic with
      | some t' =>
        rw [hlookup] at h
        simp [htask] at h
      | none =>
        rw [hlookup] at h
        obtain ⟨x, hx, rfl⟩ := Option.map_eq_some_iff.mp h
        rcases List.getElem?_concat_cases hx with ⟨-, hx⟩ | ⟨rfl, rfl⟩
        · rw [htask] at hx
          cases hx
        · exact if_pos rfl
    | stopListen j =>
      simp only [Link.step, MessageBrokerClient.stopListen] at h
      split at h
      · exact absurd (htask.symm.trans h) (Option.some_ne_none _).symm
      · exact absurd ((hnone _ _).symm.trans h) (Option.some_ne_none _).symm
    | connect t' =>
      rcases s.connect_cases t' with heq | ⟨x, -, -, heq⟩
      · simp only [Link.step, heq, htask] at h
        cases h
      · simp only [Link.step, heq, hnone] at h
        cases h
    | respond t' => exact absurd ((hnone _ _).symm.trans h) (Option.some_ne_none _).symm
    | read t' => exact absurd ((hnone _ _).symm.trans h) (Option.some_ne_none _).symm
    | hangUp t' =>
      rcases s.hangUp_cases t' with heq | ⟨x, r, -, -, -, heq⟩
      · simp only [Link.step, heq, htask] at h
        cases h
      · simp only [Link.step, heq, hnone] at h
        cases h
    | elsewhere c => exact absurd (htask.symm.trans h) (Option.some_ne_none _).symm

/-! ## One turn -/

theorem StreamingRequestTask.read_cases (C : Crypto) (K : Codec) (queues : List (List Text))
    (task : StreamingRequestTask) : task.read C K queues = task ∨
    ∃ r data, task.response = some r ∧ (r.phase = .streaming ∨ r.phase = .closing) ∧
      r.next queues = some data ∧ task.read C K queues = task.serveLine C K r data := by
  unfold read
  split
  next => exact .inl rfl
  next r hresponse =>
    split_ifs with hphase
    · split
      next => exact .inl rfl
      next data hnext => exact .inr ⟨r, data, hresponse, hphase, hnext, rfl⟩
    · exact .inl rfl

theorem StreamingRequestTask.respond_cases (queues : List (List Text))
    (task : StreamingRequestTask) : task.respond queues = task ∨
    ∃ r, task.response = some r ∧ r.phase = .waiting ∧
      task.respond queues = { task with response := some { r with phase := .streaming } } := by
  unfold respond
  split
  next => exact .inl rfl
  next r hresponse =>
    split_ifs with hphase
    · exact .inr ⟨r, hresponse, hphase.1, rfl⟩
    · exact .inl rfl

theorem StreamingRequestTask.stopListen_cases (task : StreamingRequestTask) (j : Nat) :
    task.listeners.eraseP (fun x => x.1 = j) ≠ [] ∧
      task.stopListen j = { task with listeners := task.listeners.eraseP fun x => x.1 = j } ∨
    task.listeners.eraseP (fun x => x.1 = j) = [] ∧
      task.stopListen j = { topic := task.topic, listeners := [],
                            response := task.response.map Response.close } := by
  unfold stopListen hasListeners stop
  cases h : task.listeners.eraseP fun x => x.1 = j with
  | nil => exact .inr ⟨rfl, rfl⟩
  | cons x rest => exact .inl ⟨List.cons_ne_nil _ _, rfl⟩

@[simp] theorem Response.close_queue (r : Response) : r.close.queue = r.queue := by
  unfold close; split_ifs <;> rfl

@[simp] theorem Response.close_read (r : Response) : r.close.read = r.read := by
  unfold close; split_ifs <;> rfl

theorem Turn.topic_eq (h : Turn C K s t task i task') : task'.topic = task.topic := by
  cases h with
  | joined | connected | hungUp | kept => rfl
  | left =>
    rename_i j _
    rcases task.stopListen_cases j with ⟨-, heq⟩ | ⟨-, heq⟩ <;> rw [heq]
  | responded =>
    rcases task.respond_cases s.broker.queues with heq | ⟨r, -, -, heq⟩ <;> rw [heq]
  | read =>
    rcases task.read_cases C K s.broker.queues with heq | ⟨r, data, -, -, -, heq⟩ <;> rw [heq]
    rfl

/-- What a step does to a response. -/
structure Response.Goes (queues : List (List Text)) (r r' : Response) : Prop where
  queue : r'.queue = r.queue
  hungUp : r.phase = .hungUp → r'.phase = .hungUp
  read : r'.read = r.read ∨ r'.read = r.read + 1 ∧ (r.next queues).isSome

theorem Response.Goes.refl (queues : List (List Text)) (r : Response) : r.Goes queues r where
  queue := rfl
  hungUp := id
  read := .inl rfl

/-- A response goes on, or is a new one. -/
theorem Turn.response_cases (h : Turn C K s t task i task') {r' : Response}
    (hr' : task'.response = some r') :
    (∃ r, task.response = some r ∧ r.Goes s.broker.queues r') ∨
    i = .connect t ∧ task.response = none ∧ r' = ⟨s.broker.queues.length, 0, .waiting⟩ := by
  cases h with
  | joined | kept => exact .inl ⟨r', hr', .refl _ r'⟩
  | @left j =>
    rcases task.stopListen_cases j with ⟨-, heq⟩ | ⟨-, heq⟩
    · rw [heq] at hr'
      exact .inl ⟨r', hr', .refl _ r'⟩
    · rw [heq] at hr'
      obtain ⟨r, hr, rfl⟩ := Option.map_eq_some_iff.mp hr'
      refine .inl ⟨r, hr, r.close_queue, ?_, .inl r.close_read⟩
      intro hphase
      rw [Response.close, if_neg (by rw [hphase]; decide)]
      exact hphase
  | connected hresponse =>
    obtain rfl := Option.some.inj hr'
    exact .inr ⟨rfl, hresponse, rfl⟩
  | responded =>
    rcases task.respond_cases s.broker.queues with heq | ⟨r, hr, hphase, heq⟩
    · exact .inl ⟨r', heq ▸ hr', .refl _ r'⟩
    · rw [heq] at hr'
      obtain rfl := Option.some.inj hr'
      exact .inl ⟨r, hr, rfl, fun h => absurd (hphase.symm.trans h) (by decide), .inl rfl⟩
  | read =>
    rcases task.read_cases C K s.broker.queues with heq | ⟨r, data, hr, hphase, hnext, heq⟩
    · exact .inl ⟨r', heq ▸ hr', .refl _ r'⟩
    · rw [heq] at hr'
      obtain rfl := Option.some.inj hr'
      refine .inl ⟨r, hr, rfl, ?_, .inr ⟨rfl, hnext ▸ rfl⟩⟩
      intro hhung
      rcases hphase with hp | hp <;> rw [hp] at hhung <;> cases hhung
  | @hungUp r hr =>
    obtain rfl := Option.some.inj hr'
    exact .inl ⟨r, hr, rfl, fun _ => rfl, .inl rfl⟩

/-- Listeners only join as new ones. -/
theorem Turn.mem_cases (h : Turn C K s t task i task') {x : Nat × Listener}
    (hx : x ∈ task'.listeners) : (∃ l, (x.1, l) ∈ task.listeners) ∨
      ∃ topic kind, i = .listenOn topic kind ∧ x = (s.client.made, .new kind) := by
  cases h with
  | connected | hungUp | kept => exact .inl ⟨x.2, hx⟩
  | @joined topic kind =>
    rcases List.mem_append.mp hx with hx | hx
    · exact .inl ⟨x.2, hx⟩
    · exact .inr ⟨topic, kind, rfl, List.mem_singleton.mp hx⟩
  | @left j =>
    rcases task.stopListen_cases j with ⟨-, heq⟩ | ⟨-, heq⟩
    · rw [heq] at hx
      exact .inl ⟨x.2, List.mem_of_mem_eraseP hx⟩
    · rw [heq] at hx
      cases hx
  | responded =>
    rcases task.respond_cases s.broker.queues with heq | ⟨r, -, -, heq⟩
    · exact .inl ⟨x.2, heq ▸ hx⟩
    · rw [heq] at hx
      exact .inl ⟨x.2, hx⟩
  | read =>
    rcases task.read_cases C K s.broker.queues with heq | ⟨r, data, -, -, -, heq⟩
    · exact .inl ⟨x.2, heq ▸ hx⟩
    · rw [heq] at hx
      obtain ⟨y, hy, hname⟩ := List.mem_map.mp (List.of_mem_zip hx).1
      exact .inl ⟨y.2, hname ▸ hy⟩

/-- A task that is not open does not open again. -/
theorem Turn.open (h : Turn C K s t task i task') (hopen : task'.Open) : task.Open := by
  cases h with
  | joined | kept => exact hopen
  | connected hresponse =>
    intro r hr
    rw [hresponse] at hr
    cases hr
  | hungUp => rcases hopen _ rfl with h | h <;> cases h
  | @left j =>
    rcases task.stopListen_cases j with ⟨-, heq⟩ | ⟨-, heq⟩
    · rw [heq] at hopen
      exact hopen
    · rw [heq] at hopen
      intro r hr
      have hclose := hopen r.close (Option.mem_map_of_mem Response.close hr)
      unfold Response.close at hclose
      split_ifs at hclose with hphase
      · exact .inr hphase
      · exact hclose
  | responded =>
    rcases task.respond_cases s.broker.queues with heq | ⟨r, hr, hphase, -⟩
    · exact heq ▸ hopen
    · intro r' hr'
      cases hr.symm.trans hr'
      exact .inl hphase
  | read =>
    rcases task.read_cases C K s.broker.queues with heq | ⟨r, data, hr, hphase, -, heq⟩
    · exact heq ▸ hopen
    · intro r' hr'
      cases hr.symm.trans hr'
      refine .inr (hphase.resolve_right ?_)
      intro hclosing
      rw [heq] at hopen
      have hafter := hopen _ rfl
      simp only [hclosing] at hafter
      cases hserved : (StreamingRequestTask.run C K [streamLine data]
          (task.listeners.map Prod.snd)).2 with
      | none => rw [hserved] at hafter; rcases hafter with h | h <;> cases h
      | some e => rw [hserved] at hafter; rcases hafter with h | h <;> cases h

/-- In a turn the task reads a line, its request comes, or its response stands where it was. -/
theorem Turn.place_cases (h : Turn C K s t task i task') :
    (task'.response.map (fun r => (r.queue, r.read)) =
        task.response.map (fun r => (r.queue, r.read)) ∧
      ∀ x ∈ task'.listeners, x ∈ task.listeners ∨
        x.1 = s.client.made ∧ x.2.messageQueue = []) ∨
    (i = .read t ∧ ∃ r data, task.response = some r ∧
      (r.phase = .streaming ∨ r.phase = .closing) ∧ r.next s.broker.queues = some data ∧
      task' = task.serveLine C K r data) ∨
    (i = .connect t ∧ task.response = none ∧
      task' = { task with response := some ⟨s.broker.queues.length, 0, .waiting⟩ }) := by
  cases h with
  | kept => exact .inl ⟨rfl, fun x hx => .inl hx⟩
  | joined =>
    refine .inl ⟨rfl, ?_⟩
    intro x hx
    refine (List.mem_append.mp hx).imp_right ?_
    intro hnew
    rw [List.mem_singleton.mp hnew]
    exact ⟨rfl, rfl⟩
  | @left j =>
    refine .inl ?_
    rcases task.stopListen_cases j with ⟨-, heq⟩ | ⟨-, heq⟩
    · rw [heq]
      exact ⟨rfl, fun x hx => .inl (List.mem_of_mem_eraseP hx)⟩
    · rw [heq]
      refine ⟨?_, fun x hx => by cases hx⟩
      cases task.response <;> simp
  | connected hresponse => exact .inr (.inr ⟨rfl, hresponse, rfl⟩)
  | responded =>
    refine .inl ?_
    rcases task.respond_cases s.broker.queues with heq | ⟨r, hr, -, heq⟩
    · rw [heq]
      exact ⟨rfl, fun x hx => .inl hx⟩
    · rw [heq, hr]
      exact ⟨rfl, fun x hx => .inl hx⟩
  | read =>
    rcases task.read_cases C K s.broker.queues with heq | ⟨r, data, hr, hphase, hnext, heq⟩
    · rw [heq]
      exact .inl ⟨rfl, fun x hx => .inl hx⟩
    · exact .inr (.inl ⟨rfl, r, data, hr, hphase, hnext, heq⟩)
  | hungUp hr =>
    rw [hr]
    exact .inl ⟨rfl, fun x hx => .inl hx⟩

end

end RaidexNode
end Raidex
