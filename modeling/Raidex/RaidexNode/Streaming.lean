import Raidex.RaidexNode.BrokerClient

/-!
# Raidex.RaidexNode.Streaming

What the listeners of the client get of a topic.

* `Sound`: every response that is not hung up has a listener of the broker of its own.
* `Sound.streamed_step`: in a step, the queue of a listener gets what its task reads.
* `topic_streamed`: while its task is open, a listener gets every message once and in order.
-/

namespace Raidex
namespace RaidexNode

open Json (Text)

/-! ## The server keeps a listener for every response -/

namespace Link

open MessageBroker (Refines forListener)

/-- Listeners are counted. -/
def Counted (s : Link) : Prop :=
  ∀ (t : Nat) (task : StreamingRequestTask), s.client.tasks[t]? = some task →
    ∀ x ∈ task.listeners, x.1 < s.client.made

structure Sound (s : Link) : Prop where
  refines : ∃ xs, Refines s.broker xs
  counted : s.Counted
  queues : ∀ (t : Nat) (task : StreamingRequestTask) (r : Response),
    s.client.tasks[t]? = some task → task.response = some r → r.queue < s.broker.queues.length
  listening : ∀ (t : Nat) (task : StreamingRequestTask) (r : Response),
    s.client.tasks[t]? = some task → task.response = some r → r.phase ≠ .hungUp →
      ⟨task.topic, r.queue, some id⟩ ∈ s.broker.listeners task.topic
  within : ∀ (t : Nat) (task : StreamingRequestTask) (r : Response),
    s.client.tasks[t]? = some task → task.response = some r → r.phase ≠ .hungUp →
      r.read ≤ (s.broker.queues[r.queue]?.getD []).length
  mapped : ∀ (topic : Topic) (t : Nat), s.client.topicTaskMap.lookup topic = some t →
    ∃ task, s.client.tasks[t]? = some task ∧ task.topic = topic
  apart : ∀ (t t' : Nat) (task task' : StreamingRequestTask) (r r' : Response),
    s.client.tasks[t]? = some task → s.client.tasks[t']? = some task' →
      task.response = some r → task'.response = some r' → r.queue = r'.queue → t = t'

/-- What a step has for the listeners on the topic that the server makes for requests. -/
def Input.forTopic (topic : Topic) : Input → List Text
  | .elsewhere c => forListener topic (some id) c
  | _ => []

variable {C : Crypto} {K : Codec} {s : Link} {t : Nat} {task task' : StreamingRequestTask}
  {r r' : Response} {i : Input}

theorem sound_init : Sound init where
  refines := ⟨[], MessageBroker.refines_init⟩
  counted t task h := by cases h
  queues t task r h := by cases h
  listening t task r h := by cases h
  within t task r h := by cases h
  mapped topic t h := by cases h
  apart t t' task task' r r' h := by cases h

/-- The broker takes one call at most, and none that stops the listener of a response in use. -/
theorem Sound.broker_cases (h : Sound s) (hadmits : Admits s i) :
    (s.step C K i).broker = s.broker ∧ (∀ topic, i.forTopic topic = []) ∨
    ∃ c, (s.step C K i).broker = s.broker.step c ∧ MessageBroker.Valid s.broker c ∧
      (∀ topic, i.forTopic topic = forListener topic (some id) c) ∧
      ∀ (t : Nat) (task : StreamingRequestTask) (r : Response),
        s.client.tasks[t]? = some task → task.response = some r → c.Stops r.queue →
          (s.step C K i).client.tasks[t]? =
            some { task with response := some { r with phase := .hungUp } } := by
  cases i with
  | listenOn | stopListen | respond | read => exact .inl ⟨rfl, fun _ => rfl⟩
  | connect t' =>
    rcases s.connect_cases t' with heq | ⟨x, -, -, heq⟩
    · exact .inl ⟨congrArg Link.broker heq, fun _ => rfl⟩
    · refine .inr ⟨.listenOn x.topic (some id), congrArg Link.broker heq, trivial, fun _ => rfl, ?_⟩
      intro _ _ _ _ _ hstops
      exact hstops.elim
  | hangUp t' =>
    rcases s.hangUp_cases t' with heq | ⟨x, r, hx, hr, hphase, heq⟩
    · exact .inl ⟨congrArg Link.broker heq, fun _ => rfl⟩
    · refine .inr ⟨.stopListen ⟨x.topic, r.queue, some id⟩, congrArg Link.broker heq, ?_,
        fun _ => rfl, ?_⟩
      · refine h.listening t' x r hx hr ?_
        intro hhung
        rcases hphase with hp | hp <;> rw [hp] at hhung <;> cases hhung
      · intro t task r' htask hr' hstops
        obtain rfl := h.apart t' t x task r r' hx htask hr hr' hstops
        cases hx.symm.trans htask
        cases hr.symm.trans hr'
        simp only [step, heq, MessageBrokerClient.getElem?_modifyTask, hx]
        simp
  | elsewhere c =>
    refine .inr ⟨c, rfl, hadmits.1, fun _ => rfl, ?_⟩
    intro t task r htask hr hstops
    exact absurd hstops (hadmits.2 task (List.mem_of_getElem? htask) r hr)

/-- The listener of a response that is not hung up hears of every message on its topic. -/
theorem Sound.hears (h : Sound s) (hadmits : Admits s i) (htask : s.client.tasks[t]? = some task)
    (hr : task.response = some r) (htask' : (s.step C K i).client.tasks[t]? = some task')
    (hr' : task'.response = some r') (hphase : r.phase ≠ .hungUp) (hphase' : r'.phase ≠ .hungUp) :
    ⟨task.topic, r.queue, some id⟩ ∈ (s.step C K i).broker.listeners task.topic ∧
    (s.step C K i).broker.queues[r.queue]? =
      s.broker.queues[r.queue]?.map (· ++ i.forTopic task.topic) := by
  have hmem := h.listening t task r htask hr hphase
  rcases h.broker_cases (C := C) (K := K) hadmits with
    ⟨hbroker, hnone⟩ | ⟨c, hbroker, hvalid, hfor, hstops⟩
  · rw [hbroker, hnone]
    refine ⟨hmem, ?_⟩
    simp
  · obtain ⟨xs, hrefines⟩ := h.refines
    rw [hbroker, hfor]
    refine hrefines.mem_step hvalid hmem ?_
    intro hstop
    have hhung := hstops t task r htask hr hstop
    cases hhung.symm.trans htask'
    cases hr'
    exact hphase' rfl

/-- Every response after a step is one of before, or the new one. -/
theorem response_cases (htask' : (s.step C K i).client.tasks[t]? = some task')
    (hr' : task'.response = some r') :
    ∃ task, s.client.tasks[t]? = some task ∧ task'.topic = task.topic ∧
      ((∃ r, task.response = some r ∧ r.Goes s.broker.queues r') ∨
      i = .connect t ∧ task.response = none ∧ r' = ⟨s.broker.queues.length, 0, .waiting⟩) := by
  rcases Turn.of_step htask' with ⟨task, htask, hturn⟩ | ⟨-, topic, kind, -, rfl⟩
  · exact ⟨task, htask, hturn.topic_eq, hturn.response_cases hr'⟩
  · cases hr'

theorem Sound.length_le (h : Sound s) (hadmits : Admits s i) :
    s.broker.queues.length ≤ (s.step C K i).broker.queues.length := by
  rcases h.broker_cases (C := C) (K := K) hadmits with ⟨hbroker, -⟩ | ⟨c, hbroker, hvalid, -⟩
  · rw [hbroker]
  · obtain ⟨xs, hrefines⟩ := h.refines
    rw [hbroker]
    exact hrefines.length_le_step hvalid

theorem topicTaskMap_listenOn (C : Crypto) (K : Codec) (s : Link) (topic : Topic)
    (kind : ListenerKind) : (s.step C K (.listenOn topic kind)).client.topicTaskMap =
      (s.client.taskOf topic).1.topicTaskMap := rfl

/-- Topics only get tasks by `listenOn`. -/
theorem topicTaskMap_step (C : Crypto) (K : Codec) (s : Link)
    (h : ∀ topic kind, i ≠ .listenOn topic kind) :
    (s.step C K i).client.topicTaskMap = s.client.topicTaskMap := by
  cases i with
  | listenOn topic kind => exact absurd rfl (h topic kind)
  | stopListen j =>
    simp only [step, MessageBrokerClient.stopListen]
    split <;> rfl
  | connect t =>
    rcases s.connect_cases t with heq | ⟨x, -, -, heq⟩
    · simp only [step, heq]
    · simp only [step, heq]
      rfl
  | hangUp t =>
    rcases s.hangUp_cases t with heq | ⟨x, r, -, -, -, heq⟩
    · simp only [step, heq]
    · simp only [step, heq]
      rfl
  | respond | read | elsewhere => rfl

/-- The task of a topic is the one of before, or the new one. -/
theorem lookup_cases {topic : Topic}
    (h : (s.step C K i).client.topicTaskMap.lookup topic = some t) :
    s.client.topicTaskMap.lookup topic = some t ∨
      t = s.client.tasks.length ∧ s.client.topicTaskMap.lookup topic = none ∧
        ∃ kind, i = .listenOn topic kind := by
  by_cases hi : ∃ topic kind, i = .listenOn topic kind
  · obtain ⟨topic', kind, rfl⟩ := hi
    rw [topicTaskMap_listenOn, MessageBrokerClient.taskOf] at h
    cases hlookup : s.client.topicTaskMap.lookup topic' with
    | some t' =>
      rw [hlookup] at h
      exact .inl h
    | none =>
      rw [hlookup] at h
      by_cases htopic : topic = topic'
      · subst htopic
        rw [AList.lookup_insert] at h
        exact .inr ⟨(Option.some.inj h).symm, hlookup, kind, rfl⟩
      · rw [AList.lookup_insert_ne htopic] at h
        exact .inl h
  · rw [topicTaskMap_step C K s fun topic kind heq => hi ⟨topic, kind, heq⟩] at h
    exact .inl h

/-- No topic ever changes its task. -/
theorem lookup_step {topic : Topic} (h : s.client.topicTaskMap.lookup topic = some t)
    (i : Input) : (s.step C K i).client.topicTaskMap.lookup topic = some t := by
  by_cases hi : ∃ topic kind, i = .listenOn topic kind
  · obtain ⟨topic', kind, rfl⟩ := hi
    rw [topicTaskMap_listenOn, MessageBrokerClient.taskOf]
    cases hlookup : s.client.topicTaskMap.lookup topic' with
    | some t' => exact h
    | none =>
      have hne : topic ≠ topic' := by
        rintro rfl
        rw [hlookup] at h
        cases h
      exact (AList.lookup_insert_ne hne).trans h
  · rw [topicTaskMap_step C K s fun topic kind heq => hi ⟨topic, kind, heq⟩]
    exact h

theorem made_listenOn (C : Crypto) (K : Codec) (s : Link) (topic : Topic) (kind : ListenerKind) :
    (s.step C K (.listenOn topic kind)).client.made = s.client.made + 1 :=
  congrArg (· + 1) (s.client.taskOf_made topic)

theorem made_le (C : Crypto) (K : Codec) (s : Link) (i : Input) :
    s.client.made ≤ (s.step C K i).client.made := by
  cases i with
  | listenOn topic kind => exact (made_listenOn C K s topic kind).symm ▸ Nat.le_succ _
  | stopListen j =>
    simp only [step, MessageBrokerClient.stopListen]
    split <;> exact le_rfl
  | connect t =>
    rcases s.connect_cases t with heq | ⟨x, -, -, heq⟩
    · simp only [step, heq, le_refl]
    · simp only [step, heq]
      exact le_rfl
  | hangUp t =>
    rcases s.hangUp_cases t with heq | ⟨x, r, -, -, -, heq⟩
    · simp only [step, heq, le_refl]
    · simp only [step, heq]
      exact le_rfl
  | respond | read | elsewhere => exact le_rfl

theorem Counted.step (h : Counted s) (i : Input) : Counted (Link.step C K s i) := by
  intro t task' htask' x hx
  rcases Turn.of_step htask' with ⟨task, htask, hturn⟩ | ⟨-, topic, kind, rfl, rfl⟩
  · rcases hturn.mem_cases hx with ⟨l, hl⟩ | ⟨topic, kind, rfl, rfl⟩
    · exact (h t task htask _ hl).trans_le (made_le C K s i)
    · exact (made_listenOn C K s topic kind).symm ▸ Nat.lt_succ_self _
  · rw [List.mem_singleton.mp hx, made_listenOn]
    exact Nat.lt_succ_self _

/-- The server makes a listener for a new request. -/
theorem Sound.connects (h : Sound s) (htask : s.client.tasks[t]? = some task)
    (hresponse : task.response = none) :
    ⟨task.topic, s.broker.queues.length, some id⟩ ∈
      (s.step C K (.connect t)).broker.listeners task.topic ∧
    (s.step C K (.connect t)).broker.queues[s.broker.queues.length]? = some [] := by
  obtain ⟨xs, hrefines⟩ := h.refines
  simp only [Link.step, connect_eq htask hresponse]
  exact hrefines.made_step (c := .listenOn task.topic (some id)) trivial (MessageBroker.made_eq _ _)

theorem Sound.step (h : Sound s) (hadmits : Admits s i) : Sound (s.step C K i) where
  refines := by
    rcases h.broker_cases (C := C) (K := K) hadmits with ⟨hbroker, -⟩ | ⟨c, hbroker, hvalid, -⟩
    · rw [hbroker]
      exact h.refines
    · obtain ⟨xs, hrefines⟩ := h.refines
      rw [hbroker]
      exact ⟨_, hrefines.step hvalid⟩
  counted := h.counted.step i
  queues := by
    intro t task' r' htask' hr'
    have hle := h.length_le (C := C) (K := K) hadmits
    obtain ⟨task, htask, -, ⟨r, hr, hgoes⟩ | ⟨rfl, hr, rfl⟩⟩ := response_cases htask' hr'
    · rw [hgoes.queue]
      exact (h.queues t task r htask hr).trans_le hle
    · exact (List.getElem?_eq_some_iff.mp (h.connects htask hr).2).1
  listening := by
    intro t task' r' htask' hr' hphase'
    obtain ⟨task, htask, htopic, ⟨r, hr, hgoes⟩ | ⟨rfl, hr, rfl⟩⟩ := response_cases htask' hr'
    · rw [hgoes.queue, htopic]
      exact (h.hears hadmits htask hr htask' hr' (mt hgoes.hungUp hphase') hphase').1
    · rw [htopic]
      exact (h.connects htask hr).1
  within := by
    intro t task' r' htask' hr' hphase'
    obtain ⟨task, htask, htopic, ⟨r, hr, hgoes⟩ | ⟨rfl, hr, rfl⟩⟩ := response_cases htask' hr'
    · have hphase := mt hgoes.hungUp hphase'
      have hlt := h.queues t task r htask hr
      have hle := h.within t task r htask hr hphase
      have hgrows := (h.hears hadmits htask hr htask' hr' hphase hphase').2
      rw [List.getElem?_eq_getElem hlt] at hgrows hle
      rw [hgoes.queue, hgrows, Option.map_some, Option.getD_some, List.length_append]
      rcases hgoes.read with hread | ⟨hread, hnext⟩
      · rw [hread]
        exact Nat.le_add_right_of_le hle
      · rw [hread]
        obtain ⟨data, hdata⟩ := Option.isSome_iff_exists.mp hnext
        rw [Response.next, List.getElem?_eq_getElem hlt] at hdata
        exact Nat.le_add_right_of_le (List.getElem?_eq_some_iff.mp hdata).1
    · exact Nat.zero_le _
  mapped := by
    intro topic t hlookup
    rcases lookup_cases hlookup with hlookup | ⟨rfl, hnone, kind, rfl⟩
    · obtain ⟨task, htask, htopic⟩ := h.mapped topic t hlookup
      obtain ⟨task', htask', hturn⟩ := Turn.exists C K htask i
      exact ⟨task', htask', hturn.topic_eq.trans htopic⟩
    · refine ⟨(StreamingRequestTask.new topic).createListener s.client.made kind, ?_, rfl⟩
      simp only [Link.step, MessageBrokerClient.listenOn, MessageBrokerClient.createListener,
        MessageBrokerClient.getElem?_modifyTask, MessageBrokerClient.taskOf, hnone]
      simp
  apart := by
    intro t₁ t₂ task₁ task₂ r₁ r₂ htask₁ htask₂ hr₁ hr₂ hqueue
    obtain ⟨x₁, hx₁, -, ⟨y₁, hy₁, hgoes₁⟩ | ⟨hi₁, -, rfl⟩⟩ := response_cases htask₁ hr₁
    · obtain ⟨x₂, hx₂, -, ⟨y₂, hy₂, hgoes₂⟩ | ⟨hi₂, -, rfl⟩⟩ := response_cases htask₂ hr₂
      · exact h.apart t₁ t₂ x₁ x₂ y₁ y₂ hx₁ hx₂ hy₁ hy₂
          (hgoes₁.queue.symm.trans (hqueue.trans hgoes₂.queue))
      · exact absurd (hgoes₁.queue.symm.trans hqueue) (Nat.ne_of_lt (h.queues t₁ x₁ y₁ hx₁ hy₁))
    · obtain ⟨x₂, hx₂, -, ⟨y₂, hy₂, hgoes₂⟩ | ⟨hi₂, -, rfl⟩⟩ := response_cases htask₂ hr₂
      · exact absurd (hqueue.trans hgoes₂.queue).symm (Nat.ne_of_lt (h.queues t₂ x₂ y₂ hx₂ hy₂))
      · exact Input.connect.inj (hi₁.symm.trans hi₂)

theorem Sound.run (h : Sound s) {is : List Input}
    (hadmits : LTS.AllSteps (Link.step C K) Admits s is) :
    Sound (LTS.run (Link.step C K) s is) :=
  LTS.run_invariant_of_guard (Link.step C K) Admits (fun _ s => Sound s) h
    (fun _ _ _ hs hi => hs.step hi) is hadmits

end Link

/-! ## What a listener hears -/

/-- The messages that the server has for the task and that the task has not read. -/
def StreamingRequestTask.unread (task : StreamingRequestTask) (queues : List (List Text)) :
    List Text :=
  match task.response with
  | none => []
  | some r => (queues[r.queue]?.getD []).drop r.read

/-- The server still has a listener for the task, if it ever had one. -/
def StreamingRequestTask.Live (task : StreamingRequestTask) : Prop :=
  ∀ r ∈ task.response, r.phase ≠ .hungUp

theorem StreamingRequestTask.Open.live {task : StreamingRequestTask} (h : task.Open) :
    task.Live := by
  intro r hr hphase
  rcases h r hr with hp | hp <;> rw [hp] at hphase <;> cases hphase

/-- What listeners of the kind make of messages. -/
def heard (C : Crypto) (K : Codec) (kind : ListenerKind) (messages : List Text) : List Delivered :=
  (messages.map streamLine).filterMap (handed C K kind)

namespace Link

def unread (s : Link) (t : Nat) : List Text :=
  match s.client.tasks[t]? with
  | none => []
  | some task => task.unread s.broker.queues

/-- The messages on its topic that the server takes for task `t` in a step. It takes none before
the request has come. -/
def taken (t : Nat) (x : Link × Input) : List Text :=
  match x.1.client.tasks[t]? with
  | none => []
  | some task => if task.response.isSome then x.2.forTopic task.topic else []

variable {C : Crypto} {K : Codec} {s : Link} {t : Nat} {task task' : StreamingRequestTask}
  {r r' : Response} {i : Input}

theorem heard_append (kind : ListenerKind) (xs ys : List Text) :
    heard C K kind (xs ++ ys) = heard C K kind xs ++ heard C K kind ys := by
  unfold heard
  rw [List.map_append, List.filterMap_append]

/-- A step that reads nothing leaves a task with what it had not read and what is new. -/
theorem Sound.unread_step (h : Sound s) (hadmits : Admits s i)
    (htask : s.client.tasks[t]? = some task) (hlive : task.Live)
    (htask' : (s.step C K i).client.tasks[t]? = some task') (hlive' : task'.Live)
    (hresponse : task'.response.map (fun r => (r.queue, r.read)) =
      task.response.map fun r => (r.queue, r.read)) :
    (s.step C K i).unread t = s.unread t ++ taken t (s, i) := by
  unfold unread taken StreamingRequestTask.unread
  simp only [htask, htask']
  cases hr : task.response with
  | none =>
    rw [hr, Option.map_none, Option.map_eq_none_iff] at hresponse
    simp [hresponse]
  | some r =>
    rw [hr, Option.map_some] at hresponse
    obtain ⟨r', hr', heq⟩ := Option.map_eq_some_iff.mp hresponse
    obtain ⟨hqueue, hread⟩ := Prod.mk.inj heq
    have hlt := h.queues t task r htask hr
    have hgrows := (h.hears hadmits htask hr htask' hr' (hlive r hr) (hlive' r' hr')).2
    have hle := h.within t task r htask hr (hlive r hr)
    rw [List.getElem?_eq_getElem hlt] at hgrows hle
    simp only [hr', hqueue, hread, hgrows, List.getElem?_eq_getElem hlt, Option.map_some,
      Option.getD_some, Option.isSome_some, if_true]
    exact List.drop_append_of_le_length hle

theorem unread_next {queues : List (List Text)} {data : Text} (h : r.next queues = some data) :
    (queues[r.queue]?.getD []).drop r.read =
      data :: (queues[r.queue]?.getD []).drop (r.read + 1) := by
  obtain ⟨queue, hqueue, hdata⟩ := Option.bind_eq_some_iff.mp h
  rw [hqueue, Option.getD_some]
  obtain ⟨hlt, rfl⟩ := List.getElem?_eq_some_iff.mp hdata
  exact List.drop_eq_getElem_cons hlt

/-- What a line may do to a listener. -/
def Puts (C : Crypto) (K : Codec) (data : Text) (l l' : Listener) : Prop :=
  l'.kind = l.kind ∧ (l'.messageQueue = l.messageQueue ∨
    l'.messageQueue = l.messageQueue ++ heard C K l.kind [data])

theorem Puts.refl (C : Crypto) (K : Codec) (data : Text) (l : Listener) : Puts C K data l l :=
  ⟨rfl, .inl rfl⟩

theorem serve_puts {data : Text} {x : Received}
    (hread : StreamingRequestTask.readLine K (streamLine data) = .ok x) (ls : List Listener) :
    List.Forall₂ (Puts C K data) ls (StreamingRequestTask.serve C x ls).1 := by
  induction ls with
  | nil => exact .nil
  | cons l ls ih =>
    rw [StreamingRequestTask.serve]
    cases hy : l.kind.transform C x with
    | error e => exact .cons (.refl ..) (List.forall₂_same.mpr fun _ _ => .refl ..)
    | ok y =>
      refine .cons ⟨rfl, .inr ?_⟩ ih
      have hhanded : handed C K l.kind (streamLine data) = y := by
        rw [handed, hread]
        exact congrArg (fun z : Except OpenError (Option Delivered) => z.toOption.join) hy
      unfold Listener.put heard
      rw [List.map_singleton]
      cases y with
      | none => rw [List.filterMap_cons_none hhanded]; rfl
      | some m => rw [List.filterMap_cons_some hhanded]; rfl

/-- A line that breaks the task may have reached some of the listeners. -/
theorem run_puts (data : Text) (ls : List Listener) : List.Forall₂ (Puts C K data) ls
    (StreamingRequestTask.run C K [streamLine data] ls).1 := by
  rw [StreamingRequestTask.run, if_neg (streamLine_ne_nil data)]
  cases hread : StreamingRequestTask.readLine K (streamLine data) with
  | error e => exact List.forall₂_same.mpr fun _ _ => .refl ..
  | ok x =>
    have hserve := serve_puts (C := C) hread ls
    dsimp only
    cases (StreamingRequestTask.serve C x ls).2 with
    | none => exact hserve
    | some e => exact hserve

/-- A line that leaves the task open is put to every listener. -/
theorem serveLine_listeners {data : Text} (hopen : (task.serveLine C K r data).Open) :
    (task.serveLine C K r data).listeners = task.listeners.map fun x =>
      (x.1, { x.2 with messageQueue := x.2.messageQueue ++ heard C K x.2.kind [data] }) := by
  have hlines : ∀ line ∈ [streamLine data], line ≠ [] :=
    List.forall_mem_singleton.mpr (streamLine_ne_nil data)
  have hserved : (StreamingRequestTask.run C K [streamLine data] (task.listeners.map Prod.snd)).2 =
      none := by
    by_contra hne
    obtain ⟨e, he⟩ := Option.ne_none_iff_exists'.mp hne
    have hphase := hopen _ rfl
    simp only [he, Response.Phase.afterLine] at hphase
    rcases hphase with hp | hp <;> cases hp
  have hserves := (StreamingRequestTask.run_eq_none_iff hlines).mp hserved
  unfold StreamingRequestTask.serveLine
  dsimp only
  rw [StreamingRequestTask.run_eq hlines hserves, List.map_map, List.zip_map']
  rfl

/-- In a step, the queue of a listener gets what the task reads for it. -/
theorem Sound.streamed_step (h : Sound s) (hadmits : Admits s i)
    (htask' : (s.step C K i).client.tasks[t]? = some task') (hopen' : task'.Open) {j : Nat}
    {l' : Listener} (hl' : (j, l') ∈ task'.listeners) (hj : j < s.client.made) :
    ∃ task l, s.client.tasks[t]? = some task ∧ task.Open ∧ (j, l) ∈ task.listeners ∧
      task'.topic = task.topic ∧ l'.kind = l.kind ∧
      l'.messageQueue ++ heard C K l.kind ((s.step C K i).unread t) =
        l.messageQueue ++ heard C K l.kind (s.unread t ++ taken t (s, i)) := by
  rcases Turn.of_step htask' with ⟨task, htask, hturn⟩ | ⟨-, topic, kind, -, rfl⟩
  · have hopen := hturn.open hopen'
    have htopic := hturn.topic_eq
    rcases hturn.place_cases with
      ⟨hresponse, hmem⟩ | ⟨rfl, r, data, hr, -, hnext, rfl⟩ | ⟨rfl, hr, rfl⟩
    · have hunread := h.unread_step hadmits htask hopen.live htask' hopen'.live hresponse
      have hl := (hmem _ hl').resolve_right fun hnew => Nat.ne_of_lt hj hnew.1
      exact ⟨task, l', htask, hopen, hl, htopic, rfl, by rw [hunread]⟩
    · rw [serveLine_listeners hopen'] at hl'
      obtain ⟨⟨j, l⟩, hl, heq⟩ := List.mem_map.mp hl'
      obtain ⟨rfl, rfl⟩ := Prod.mk.inj heq
      refine ⟨task, l, htask, hopen, hl, htopic, rfl, ?_⟩
      have hunread : s.unread t = data :: (s.step C K (.read t)).unread t := by
        unfold unread
        simp only [htask, htask']
        unfold StreamingRequestTask.unread StreamingRequestTask.serveLine
        rw [hr]
        exact unread_next hnext
      have htaken : taken t (s, .read t) = [] := by
        unfold taken Input.forTopic
        simp [htask]
      rw [hunread, htaken, List.append_nil, List.append_assoc]
      exact congrArg (l.messageQueue ++ ·) (heard_append l.kind [data] _).symm
    · refine ⟨task, l', htask, hopen, hl', htopic, rfl, ?_⟩
      have hunread : (s.step C K (.connect t)).unread t = [] := by
        unfold unread StreamingRequestTask.unread
        simp only [htask', (h.connects htask hr).2]
        rfl
      have hnone : s.unread t ++ taken t (s, .connect t) = [] := by
        unfold unread taken StreamingRequestTask.unread
        simp [htask, hr]
      rw [hunread, hnone]
  · cases List.mem_singleton.mp hl'
    exact absurd hj (Nat.lt_irrefl _)

theorem made_le_run (s : Link) (is : List Input) :
    s.client.made ≤ (LTS.run (step C K) s is).client.made :=
  LTS.run_invariant (step C K) (fun _ s' => s.client.made ≤ s'.client.made) le_rfl
    (fun _ s' i h => h.trans (made_le C K s' i)) is

/-- What a listener got in a run, and what is still unread for it. -/
theorem Sound.streamed_run (h : Sound s) {is : List Input}
    (hadmits : LTS.AllSteps (Link.step C K) Admits s is)
    (htask' : (LTS.run (Link.step C K) s is).client.tasks[t]? = some task') (hopen' : task'.Open)
    {j : Nat} {l' : Listener} (hl' : (j, l') ∈ task'.listeners) (hj : j < s.client.made) :
    ∃ task l, s.client.tasks[t]? = some task ∧ (j, l) ∈ task.listeners ∧
      task'.topic = task.topic ∧ l'.kind = l.kind ∧
      l'.messageQueue ++ heard C K l.kind ((LTS.run (Link.step C K) s is).unread t) =
        l.messageQueue ++
          heard C K l.kind (s.unread t ++ (LTS.trace (Link.step C K) s is).flatMap (taken t)) := by
  induction is using List.reverseRecOn generalizing task' l' with
  | nil =>
    refine ⟨task', l', htask', hl', rfl, rfl, ?_⟩
    simp [LTS.trace]
  | append_singleton is i ih =>
    obtain ⟨hpre, hi⟩ := LTS.allSteps_concat.mp hadmits
    rw [LTS.run_concat] at htask' ⊢
    have hsound := h.run hpre
    obtain ⟨task₁, l₁, htask₁, hopen₁, hl₁, htopic₁, hkind₁, hqueue₁⟩ :=
      hsound.streamed_step hi htask' hopen' hl' (hj.trans_le (made_le_run s is))
    obtain ⟨task, l, htask, hl, htopic, hkind, hqueue⟩ := ih hpre htask₁ hopen₁ hl₁
    refine ⟨task, l, htask, hl, htopic₁.trans htopic, hkind₁.trans hkind, ?_⟩
    rw [hkind, heard_append, ← List.append_assoc, hqueue] at hqueue₁
    rw [hqueue₁, LTS.trace_concat, List.flatMap_append, List.flatMap_singleton, List.append_assoc,
      ← heard_append, List.append_assoc]

/-- A new listener is on its topic; it has nothing, and it may find messages unread. -/
theorem Sound.created (h : Sound s) {topic : Topic} {kind : ListenerKind}
    (htask' : (s.step C K (.listenOn topic kind)).client.tasks[t]? = some task') {l : Listener}
    (hl : (s.client.made, l) ∈ task'.listeners) :
    task'.topic = topic ∧ l = .new kind ∧
      (s.step C K (.listenOn topic kind)).unread t = s.unread t := by
  rcases Turn.of_step htask' with ⟨task, htask, hturn⟩ | ⟨htask, topic', kind', heq, rfl⟩
  · have hbelow : (s.client.made, l) ∉ task.listeners := fun hmem =>
      absurd (h.counted t task htask _ hmem) (Nat.lt_irrefl _)
    cases hturn with
    | kept => exact absurd hl hbelow
    | joined hlookup =>
      obtain ⟨x, hx, htopic⟩ := h.mapped topic t hlookup
      cases hx.symm.trans htask
      obtain hnew := (List.mem_append.mp hl).resolve_left hbelow
      refine ⟨htopic, (Prod.mk.inj (List.mem_singleton.mp hnew)).2, ?_⟩
      unfold unread
      rw [htask, htask']
      rfl
  · obtain ⟨rfl, rfl⟩ := Input.listenOn.inj heq
    refine ⟨rfl, (Prod.mk.inj (List.mem_singleton.mp hl)).2, ?_⟩
    unfold unread
    rw [htask, htask']
    rfl

/-- A listener on a topic gets what its task had not read yet when it came, and then every
message that the server takes for the task, in order and once, as long as the task is open. -/
theorem topic_streamed (C : Crypto) (K : Codec) {pre post : List Input} {topic : Topic}
    {kind : ListenerKind}
    (hadmits : LTS.AllSteps (step C K) Admits init (pre ++ .listenOn topic kind :: post))
    {t : Nat} {task : StreamingRequestTask} {l : Listener}
    (htask : (run C K (pre ++ .listenOn topic kind :: post)).client.tasks[t]? = some task)
    (hopen : task.Open) (hl : ((run C K pre).client.made, l) ∈ task.listeners) :
    task.topic = topic ∧ l.kind = kind ∧
      l.messageQueue ++ heard C K kind ((run C K (pre ++ .listenOn topic kind :: post)).unread t) =
        heard C K kind ((run C K pre).unread t ++
          (LTS.trace (step C K) ((run C K pre).step C K (.listenOn topic kind)) post).flatMap
            (taken t)) := by
  obtain ⟨hpre, hrest⟩ := LTS.allSteps_append.mp hadmits
  have hsound : Sound (run C K pre) := sound_init.run hpre
  have hsplit : LTS.AllSteps (step C K) Admits (run C K pre) ([.listenOn topic kind] ++ post) :=
    hrest
  obtain ⟨hlisten, hpost⟩ := LTS.allSteps_append.mp hsplit
  have hsound₁ : Sound ((run C K pre).step C K (.listenOn topic kind)) := hsound.step trivial
  have hlt : (run C K pre).client.made <
      ((run C K pre).step C K (.listenOn topic kind)).client.made := by
    rw [made_listenOn]
    exact Nat.lt_succ_self _
  have hrun : run C K (pre ++ .listenOn topic kind :: post) =
      LTS.run (step C K) ((run C K pre).step C K (.listenOn topic kind)) post := by
    rw [run, LTS.run_append]
    rfl
  rw [hrun] at htask ⊢
  obtain ⟨task₁, l₁, htask₁, hl₁, htopic, hkind, hqueue⟩ :=
    hsound₁.streamed_run hpost htask hopen hl hlt
  obtain ⟨htopic₁, rfl, hunread⟩ := hsound.created htask₁ hl₁
  rw [hunread] at hqueue
  exact ⟨htopic.trans htopic₁, hkind, hqueue⟩

/-- One message is lost, one is read, and one is waiting. -/
def hello : List Input :=
  [.elsewhere (.send (.name "broadcast") (some (Json.text "lost"))), .connect 0,
   .elsewhere (.send (.name "broadcast") (some (Json.text "hello"))), .respond 0,
   .elsewhere (.broadcast (some (Json.text "again"))), .read 0]

def noCodec : Codec where
  recursionLimit := 900
  decodeRlp _ := none
  deserialize _ _ := none

theorem hello_streamed :
    ∃ task l, (run .plain noCodec
        (.listenOn (.name "broadcast") .message :: hello)).client.tasks[0]? = some task ∧
      (0, l) ∈ task.listeners ∧
        l.messageQueue ++ heard .plain noCodec .message [Json.text "again"] =
        heard .plain noCodec .message [Json.text "hello", Json.text "again"] := by
  have hadmits : LTS.AllSteps (step .plain noCodec) Admits init
      (.listenOn (.name "broadcast") .message :: hello) := by
    intro x hx
    simp only [hello, LTS.trace, List.mem_cons, List.not_mem_nil, or_false] at hx
    rcases hx with rfl | rfl | rfl | rfl | rfl | rfl | rfl <;> trivial
  have hopen : ∀ r ∈ some (⟨0, 1, .streaming⟩ : Response), r.phase = .waiting ∨
      r.phase = .streaming := by
    rintro r ⟨⟩
    exact .inr rfl
  have hunread : (run .plain noCodec (.listenOn (.name "broadcast") .message :: hello)).unread 0 =
      [Json.text "again"] := by decide +kernel
  have htaken : (run .plain noCodec []).unread 0 ++
      (LTS.trace (step .plain noCodec) ((run .plain noCodec []).step .plain noCodec
        (.listenOn (.name "broadcast") .message)) hello).flatMap (taken 0) =
      [Json.text "hello", Json.text "again"] := by decide +kernel
  refine ⟨_, _, rfl, List.mem_cons_self, ?_⟩
  have hstreamed := @topic_streamed .plain noCodec [] hello (.name "broadcast") .message hadmits 0
    _ _ rfl hopen List.mem_cons_self
  rw [htaken] at hstreamed
  exact hunread ▸ hstreamed.2.2

end Link

end RaidexNode
end Raidex
