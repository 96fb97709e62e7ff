import ErgoProxy.Runtime.WriteQueues
import ErgoProxy.Transport.Admission
import ErgoProxy.Transport.HandshakeBuild

/-!
# Who is served

The router, the sender map and the write queues know a peer only after its task has begun,
and a task begins with a handshake that was valid. So whoever is registered has shown a
version that is high enough and, if its handshake carries a session, our network's magic; its
direction and mode are those of the listener that accepted it or of the outbound manager. A
connection whose handshake has failed has left no trace.

The manager does not serve other proxies. A handshake read that succeeds returns what the
bytes of the stream say, however much of it the first refill shows, so a proxy on the other
side is recognised whenever its handshake is read at all.
-/

namespace ErgoProxy.Connection

open BufReader Handshake

/-- A refill shows the beginning of the contents. -/
theorem filled_prefix {reader middle : BufReader} {seen : Bytes}
    (filled : fillBuf reader = .ok seen middle) : seen <+: reader.contents := by
  obtain ⟨buffer, incoming⟩ := reader
  cases buffer with
  | cons byte buffer =>
    cases filled
    exact List.prefix_append _ _
  | nil =>
    cases incoming with
    | nil =>
      cases filled
      exact List.nil_prefix
    | cons outcome later =>
      cases outcome with
      | error problem => cases filled
      | ok chunk =>
        cases filled
        cases chunk with
        | nil => exact List.nil_prefix
        | cons byte chunk => exact (List.take_prefix _ _).trans (List.prefix_append _ _)

/-- A handshake that is read is the one at the front of the stream, whatever part of the
stream was shown. -/
theorem readHandshake_contents {reader after : BufReader} {spec : PeerSpec}
    (read : readHandshake reader = .ok spec after) :
    ∃ size, strictWalk reader.contents = .ok spec (reader.contents.drop size) := by
  obtain ⟨seen, middle, size, filled, inside, walked, _⟩ := readHandshake_walk read
  obtain ⟨missing, whole⟩ := filled_prefix filled
  refine ⟨size, walk_agrees inside walked ?_⟩
  rw [← whole, List.take_append_of_le_length inside]

section Connections

variable {config : HandshakeConfig} {surroundings : Surroundings} {reader : BufReader}
  {conn : Connection}

/-- What is known of a connection: it has our network's magic, and its handshake was read and
is valid. -/
structure Established (config : HandshakeConfig) (reader : BufReader) (conn : Connection) :
    Prop where
  magic : conn.magic = config.network.magic
  read : ∃ after, readHandshake reader = .ok conn.peerSpec after
  valid : validatePeer conn.peerSpec config.network = .ok ()

/-- An accepted connection is established. -/
theorem inbound_established (accepted : inbound config surroundings reader = .ok conn) :
    Established config reader conn := by
  unfold inbound at accepted
  cases received : receiveHandshake config surroundings reader with
  | error problem after =>
    rw [received] at accepted
    cases accepted
  | ok spec after =>
    obtain ⟨_, read, valid⟩ := (receiveHandshake_ok config surroundings reader after spec).mp received
    rw [received] at accepted
    cases outcome : surroundings.writeOutcome with
    | error problem =>
      rw [outcome] at accepted
      cases accepted
    | ok =>
      rw [outcome] at accepted
      cases accepted
      exact ⟨rfl, ⟨after, read⟩, valid⟩

/-- A connection that we opened is established. -/
theorem outbound_established (accepted : outbound config surroundings reader = .ok conn) :
    Established config reader conn := by
  unfold outbound at accepted
  cases outcome : surroundings.writeOutcome with
  | error problem =>
    rw [outcome] at accepted
    cases accepted
  | ok =>
    rw [outcome] at accepted
    cases received : receiveHandshake config surroundings reader with
    | error problem after =>
      rw [received] at accepted
      cases accepted
    | ok spec after =>
      obtain ⟨_, read, valid⟩ :=
        (receiveHandshake_ok config surroundings reader after spec).mp received
      rw [received] at accepted
      cases accepted
      exact ⟨rfl, ⟨after, read⟩, valid⟩

end Connections

end ErgoProxy.Connection

namespace ErgoProxy.Runtime

open FiniteMaps Handshake Routing Runs

/-- What a task was given by whoever spawned it. -/
def Origin.Gives (config : Config) (task : PeerTask) : Origin → Prop
  | .listener index => ∃ listener, config.listeners[index]? = some listener ∧
      task.direction = .inbound ∧ task.mode = listener.mode
  | .manager => task.direction = .outbound ∧ task.mode = .full ∧ isProxy task.spec = false

/-- A task that follows a valid handshake. -/
structure Admitted (config : Config) (origin : Origin) (task : PeerTask) : Prop where
  magic : task.magic = config.network.magic
  recent : Version.eip37Min ≤ task.spec.version
  network : ∀ session, firstSession task.spec = some session → 4 ≤ session.body.length →
    config.network.magic.toList <+: session.body
  given : origin.Gives config task

variable {config : Config} {blake2b256 : Bytes → Vector UInt8 32} {sys after : System}
  {label : Label} {history : List Label} {peer : PeerId} {origin : Origin}

/-- The task of an established connection. -/
theorem established_admitted {mode handshakeMode : ProxyMode} {reader : BufReader}
    {conn : Connection} {direction : Direction}
    (established : Connection.Established (config.makeHandshakeConfig handshakeMode) reader conn)
    (given : origin.Gives config (.start peer conn direction mode)) :
    Admitted config origin (.start peer conn direction mode) :=
  have valid := (validatePeer_ok conn.peerSpec config.network).mp established.valid
  ⟨established.magic, valid.1, valid.2, given⟩

/-- The task that follows a handshake is admitted. -/
theorem handshaken_admitted {surroundings : Surroundings} {reader : BufReader} {task : PeerTask}
    (running : config.handshaken origin peer surroundings reader = .running task) :
    Admitted config origin task := by
  cases origin with
  | listener index =>
    simp only [Config.handshaken] at running
    split at running
    · cases running
    · rename_i listener configured
      split at running
      · cases running
      · rename_i conn accepted
        cases running
        exact established_admitted (Connection.inbound_established accepted)
          ⟨listener, configured, rfl, rfl⟩
  | manager =>
    simp only [Config.handshaken] at running
    split at running
    · cases running
    · rename_i conn accepted
      split at running
      · cases running
      · rename_i ordinary
        cases running
        exact established_admitted (Connection.outbound_established accepted)
          ⟨rfl, rfl, Bool.eq_false_of_not_eq_true ordinary⟩

/-- A task keeps what it was admitted with. -/
theorem acted_admitted {task next : PeerTask} {effects : List TaskEffect}
    (acted : System.Acted sys task effects next after) (admitted : Admitted config origin task) :
    Admitted config origin next := by
  cases acted <;> exact ⟨admitted.magic, admitted.recent, admitted.network, admitted.given⟩

/-- A task that runs after a step has just been started by the peer's handshake, or it ran
before, and the step was its own or not. -/
theorem step_running (taken : Step config blake2b256 sys label after) {next : PeerTask}
    (here : after.conns.lookup peer = some ⟨origin, .running next⟩) :
    (label = .handshake peer ∧ ∃ surroundings reader,
        config.handshaken origin peer surroundings reader = .running next) ∨
      sys.conns.lookup peer = some ⟨origin, .running next⟩ ∨
      ∃ task effects performed, sys.conns.lookup peer = some ⟨origin, .running task⟩ ∧
        System.Acted sys task effects next performed := by
  by_cases other : label.connection ≠ some peer
  · exact Or.inr (Or.inl ((step_untouched taken other).symm.trans here))
  · have own := not_not.mp other
    have moved {before : System} {spawner : Origin} {stage : Stage} :
        (before.moveTask peer spawner stage).conns.lookup peer = some ⟨spawner, stage⟩ :=
      (System.conns_moveTask before _ _ _ _).trans (if_pos rfl)
    cases taken with
    | accept | dial =>
      cases own
      cases ((System.conns_moveTask sys _ _ _ _).trans (if_pos rfl)).symm.trans here
    | handshake peerId spawner waiting surroundings reader =>
      cases own
      obtain ⟨rfl, shaken⟩ : spawner = origin ∧
          config.handshaken spawner peer surroundings reader = .running next := by
        simpa using moved.symm.trans here
      exact Or.inl ⟨rfl, surroundings, reader, shaken⟩
    | task performed peerId spawner task _ effects running stepped unblocked =>
      cases own
      cases moved.symm.trans here
      exact Or.inr (Or.inr
        ⟨task, effects, performed, running, System.task_acted stepped unblocked⟩)
    | _ => cases own

/-- In every run, every task that runs is admitted. -/
theorem run_admitted (run : SystemRun config blake2b256 history sys) {task : PeerTask}
    (here : sys.conns.lookup peer = some ⟨origin, .running task⟩) :
    Admitted config origin task := by
  have established : ∀ task, sys.conns.lookup peer = some ⟨origin, .running task⟩ →
      Admitted config origin task := by
    refine invariant (fun _ reached => ∀ task,
      reached.conns.lookup peer = some ⟨origin, .running task⟩ → Admitted config origin task)
      (by rintro _ ⟨⟩) ?_ run
    intro _ before label after _ known taken next running
    rcases step_running taken running with
      ⟨_, _, _, shaken⟩ | before | ⟨task, _, _, before, acted⟩
    · exact handshaken_admitted shaken
    · exact known next before
    · exact acted_admitted acted (known task before)
  exact established task here

/-- In every run, a registered peer is served by a task that follows a valid handshake: the
version is high enough, the magic of the session is ours, and the registered direction and
mode are those given by its listener or, for a peer that is no proxy, by the outbound manager.
Of a connection without a successful handshake nothing is found anywhere: it is not registered,
it has no sender and no queue, and no event about it was ever sent. -/
theorem members_admitted (run : SystemRun config blake2b256 history sys) (peer : PeerId) :
    (∀ entry, sys.router.peers.lookup peer = some entry → ∃ origin task,
      sys.conns.lookup peer = some ⟨origin, .running task⟩ ∧
        entry = ⟨task.direction, task.mode⟩ ∧ Admitted config origin task) ∧
    ((∀ origin task, sys.conns.lookup peer ≠ some ⟨origin, .running task⟩) →
      peer ∉ sys.router.peers ∧ peer ∉ sys.senders ∧ sys.queues.lookup peer = none ∧
        about peer (sent history) = []) := by
  have registry := run_registry run peer
  constructor
  · intro entry found
    by_cases early : ∀ origin task, sys.conns.lookup peer = some ⟨origin, .running task⟩ →
        task.point = .registering
    · cases (registry.unregistered early).symm.trans found
    · push Not at early
      obtain ⟨origin, task, here, late⟩ := early
      have present : ¬ Departed history peer := fun departed => by
        cases (registry.departed departed).symm.trans found
      have recorded := registry.registered origin task here late present
      exact ⟨origin, task, here, Option.some.inj (found.symm.trans recorded), run_admitted run here⟩
  · intro absent
    have unpointed : sys.pointOf peer = none := by
      cases point : sys.pointOf peer with
      | none => rfl
      | some here =>
        obtain ⟨origin, task, running, _⟩ := System.running_pointOf point
        exact (absent origin task running).elim
    refine ⟨?_, ?_, ?_, ?_⟩
    · exact Finmap.lookup_eq_none.mp
        (registry.unregistered fun origin task here => (absent origin task here).elim)
    · rw [run_senders run, unpointed]
      exact Bool.false_ne_true
    · have shows := run_queues run peer
      rw [unpointed] at shows
      exact shows
    · have emitted := run_sent run peer
      unfold SentSoFar at emitted
      split at emitted
      · rename_i origin task here
        exact (absent origin task here).elim
      · exact emitted

/-- The first peer of a proxy is registered, and its task follows a valid handshake. -/
theorem members_admitted_first :
    ∃ history sys, SystemRun soloConfig (fun _ => Frame.emptyDigest) history sys ∧
      ∃ origin task, sys.conns.lookup ⟨1⟩ = some ⟨origin, .running task⟩ ∧
        Admitted soloConfig origin task := by
  obtain ⟨sys, run, served⟩ := first_served (fun _ => Frame.emptyDigest) solo_listener Nat.one_pos []
  obtain ⟨entry, found⟩ := Finmap.mem_iff.mp served.registered
  rw [← served.routing] at found
  obtain ⟨origin, task, here, _, admitted⟩ := (members_admitted run ⟨1⟩).1 entry found
  exact ⟨_, sys, run, origin, task, here, admitted⟩

/-- A handshake that we build says that it comes from a proxy. -/
theorem builtSpec_isProxy (theirs : HandshakeConfig) (sessionId : UInt64) :
    isProxy (builtSpec theirs sessionId) = true := by
  simp [isProxy, builtSpec, builtFeatures]

/-- The outbound manager never serves another instance of this program: whatever the other
side sends after its handshake, however the stream is cut, and whatever the configurations
are, no task comes of the connection. -/
theorem proxies_never_served (config : Config) {theirs : HandshakeConfig}
    (agentShort : (Vlq.asBytes theirs.agentName).length ≤ 255)
    (nameShort : (Vlq.asBytes theirs.peerName).length ≤ 255) {now sessionId : UInt64} {tail : Bytes}
    {reader : BufReader} (sends : reader.contents = build theirs now sessionId ++ tail)
    (peer : PeerId) (surroundings : Surroundings) :
    config.handshaken .manager peer surroundings reader = .closed := by
  simp only [Config.handshaken]
  split
  · rfl
  · rename_i conn accepted
    obtain ⟨_, ⟨after, read⟩, _⟩ := Connection.outbound_established accepted
    obtain ⟨size, walked⟩ := Connection.readHandshake_contents read
    rw [sends, consumes_build agentShort nameShort now sessionId tail] at walked
    injection walked with same
    rw [← same, builtSpec_isProxy, if_pos rfl]

/-- A proxy dials another one, which goes on sending after its handshake. -/
theorem proxies_never_served_dialed :
    soloConfig.handshaken .manager ⟨1⟩ promptly
      ⟨build proxyConfig 1700000000000 42, [.ok [2, 3]]⟩ = .closed :=
  proxies_never_served soloConfig (by decide) (by decide) rfl ⟨1⟩ promptly

end ErgoProxy.Runtime
