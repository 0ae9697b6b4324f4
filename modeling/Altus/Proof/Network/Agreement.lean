import Altus.Proof.Host.Run
import Altus.Proof.Network.Causes

namespace Altus

open Bytes Tables Network Host Datagram

section Steps

variable {key : Memory} {log : List Note} {here : Address} {host next : Host} {code : Int} {sent : List Sent}

/-- The log explains a host that sends nothing and keeps its attempts, its prepeers and its peers, or fewer of them. -/
theorem Sound.quiet (sound : Sound key here log host) (listed : Listed next)
    (keys : next.myPublicKey = host.myPublicKey ∧ next.myPublicKeySize = host.myPublicKeySize)
    (fewerC : ∀ addrport, next.cPrePeers addrport ≠ none → host.cPrePeers addrport ≠ none)
    (sameS : next.sPrePeers = host.sPrePeers)
    (fewer : ∀ pointer peer, next.peer pointer = some peer → host.peer pointer = some peer) :
    Sound key here log next where
  key := keys.1.trans sound.key
  keySize := keys.2.trans sound.keySize
  listed := listed
  pending := fun addrport some => sound.pending addrport (fewerC addrport some)
  opened := by
    rw [sameS]
    exact sound.opened
  acked := by
    rw [sameS]
    exact sound.acked
  met := fun pointer peer found => sound.met pointer peer (fewer pointer peer found)

/-- An attempt of a caller. -/
theorem Sound.connect (sound : Sound key here log host) {ip : U32} {port : U16} {serverkey : Memory} {keylen : Int}
    {starttime : U32} {raw : Raw} (listed : Listed next)
    (connected : host.connect ip port serverkey keylen starttime raw = .ok (code, sent, next)) :
    Explained key (log ++ [.asked here ⟨ip, networkPort port⟩]) here sent next := by
  have asked : Note.asked here ⟨ip, networkPort port⟩ ∈ log ++ [.asked here ⟨ip, networkPort port⟩] :=
    List.mem_append_right _ (List.mem_singleton_self _)
  refine ⟨?_, sound_stable key here _ _ _ ?_⟩
  · intro message member
    obtain ⟨target, page⟩ := connect_sends connected member
    rw [sound.key, sound.keySize] at page
    exact .page page (by rw [target]; exact asked)
  · have old := sound_stable key here _ [.asked here ⟨ip, networkPort port⟩] _ sound
    rcases connect_ok connected with rfl | ⟨newpeer, -, -, address, free, rfl⟩
    · exact old
    refine { old with listed := listed, pending := ?_ }
    intro addrport some
    obtain ⟨pointer, present⟩ := Option.ne_none_iff_exists'.mp some
    rcases (insert_eq_some free).mp present with ⟨rfl, -⟩ | before
    · rw [addressOf_addrToUint64, address]
      exact asked
    · exact old.pending addrport (by rw [before]; exact Option.some_ne_none _)

/-- An iteration of `Connecter` sends the key again to an address with an attempt. -/
theorem Sound.connecter (sound : Sound key here log host) {entry : Retry} (listed : Listed next)
    (stepped : host.step (.connecter entry) = .ok (code, sent, next)) : Explained key log here sent next := by
  refine ⟨?_, sound_stable key here _ _ _ ?_⟩
  · intro message member
    obtain ⟨addrport, pending, target, page⟩ := connecter_sends stepped member
    rw [sound.key, sound.keySize] at page
    exact .page page (by rw [target]; exact sound.pending addrport pending)
  · rcases connecter_ok stepped with rfl | ⟨-, after, retried, rfl⟩
    · exact sound
    obtain ⟨prepeer, -, rfl | ⟨-, -, rfl⟩⟩ := retry_ok retried
    · exact sound.quiet listed ⟨rfl, rfl⟩ (fun _ => id) rfl fun _ _ => id
    · refine sound.quiet listed ⟨rfl, rfl⟩ ?_ rfl fun _ _ => id
      intro addrport some
      obtain ⟨pointer, present⟩ := Option.ne_none_iff_exists'.mp some
      rw [(erase_eq_some.mp present).2]
      exact Option.some_ne_none _

/-- `Send` on a peer. -/
theorem Sound.sender (sound : Sound key here log host) {addrport : U64} {stack : U16 → Fin 16 → Memory}
    (performed : host.sender addrport stack = .ok (code, sent, next)) : Explained key log here sent next := by
  rcases sender_sends performed with ⟨rfl, rfl⟩ | ⟨pointer, peer, changed, out, found, answered, rfl, rfl⟩
  · exact ⟨by simp, sound_stable key here _ _ _ sound⟩
  obtain ⟨role, met, owns⟩ := sound.met pointer peer found
  obtain ⟨kept, spoken⟩ := owns.sendFrom _ answered
  refine ⟨?_, sound_stable key here _ _ _
    (sound.changePeer found (Peer.sendFrom_remoteAddr answered) met kept host.pools)⟩
  intro message member
  obtain ⟨datagram, sent, rfl⟩ := List.mem_map.mp member
  exact .talk (spoken datagram sent) met

/-- A step without a question. -/
theorem Explained.silent {step : HostStep} (silent : Note.asks here step = [])
    (explained : Explained key log here sent next) : Explained key (log ++ Note.asks here step) here sent next := by
  rwa [silent, List.append_nil]

/-- Every step of a host that returns is explained by the log and the question of its caller. -/
theorem Sound.step (sound : Sound key here log host) {step : HostStep} (hears : Note.Hears log here step)
    (stepped : host.step step = .ok (code, sent, next)) :
    Explained key (log ++ Note.asks here step) here sent next := by
  have listed : Listed next := (sound.listed.step stepped).1
  cases step with
  | inbound remoteAddr buf recvSize currentTime raw =>
      apply Explained.silent rfl
      rcases hears with nothing | ⟨datagram, heard, -, sizeIs, whole⟩
      · have idle : host.step (.inbound remoteAddr buf recvSize currentTime raw) = .ok (0, [], host) := if_pos nothing
        rw [idle] at stepped
        cases stepped
        exact ⟨by simp, sound_stable key here _ _ _ sound⟩
      · subst sizeIs
        exact sound.handles listed heard (sameBytes_of_read whole) (listener_handles stepped)
  | connect ip port serverkey keylen starttime raw => exact sound.connect listed stepped
  | connecter entry =>
      apply Explained.silent rfl
      exact sound.connecter listed stepped
  | removePeer peid =>
      apply Explained.silent rfl
      obtain rfl := removePeer_sends stepped
      refine ⟨by simp, sound_stable key here _ _ _ ?_⟩
      rcases removePeer_ok stepped with ⟨-, -, rfl⟩ | ⟨pointer, peer, pools, -, -, -, rfl⟩
      · exact sound
      · exact sound.quiet listed ⟨rfl, rfl⟩ (fun _ => id) rfl fun other current found => (erase_eq_some.mp found).2
  | createUpstream peid cuid buf len =>
      apply Explained.silent rfl
      obtain ⟨rfl, pointer, peer, changed, pools, found, created, rfl⟩ := createUpstream_sends stepped
      obtain ⟨role, met, owns⟩ := sound.met pointer peer found
      exact ⟨by simp, sound_stable key here _ _ _ (sound.changePeer found (Peer.createUpstream_remoteAddr created) met
        (owns.createUpstream created) pools)⟩
  | sender addrport stack =>
      apply Explained.silent rfl
      exact sound.sender stepped
  | accepting isAccepting =>
      apply Explained.silent rfl
      cases stepped
      exact ⟨by simp, sound_stable key here _ _ _ (sound.quiet listed ⟨rfl, rfl⟩ (fun _ => id) rfl fun _ _ => id)⟩

end Steps

section Runs

variable {hosted : Address → Prop} {key : Address → Memory} {pools : Address → Pools}
  {config : Config Address Host Note}

/-- The hosts of a network keep what the log explains. -/
theorem network_inductive (hosted : Address → Prop) (key : Address → Memory) :
    (network hosted).Inductive (fun here log host => hosted here → Sound (key here) here log host)
      (Justified hosted key) where
  stable := fun _ _ _ _ sound own => sound_stable _ _ _ _ _ (sound own)
  moves := by
    rintro here log host notes next sound causal ⟨own, step, code, messages, hears, stepped, rfl⟩
    obtain ⟨reasons, explained⟩ := (sound own).step hears stepped
    rw [Note.ofStep, ← List.append_assoc]
    refine ⟨fun _ => explained, Causal.append (justified_stable hosted key)
      (Causal.append (justified_stable hosted key) causal ?_) ?_⟩
    · intro note member
      cases step with
      | connect =>
          obtain rfl := List.mem_singleton.mp member
          trivial
      | _ => cases member
    · intro note member
      obtain ⟨message, sent, rfl⟩ := List.mem_map.mp member
      exact fun _ => reasons message sent
  foreign := by
    rintro log note ⟨source, target, datagram, foreign, rfl⟩
    exact fun own => absurd own foreign

/-- In every run of a network each datagram of a host has its reason among the earlier notes, and the log explains the
tables of each host. -/
theorem network.run_explained
    (run : Relation.ReflTransGen (network hosted).Step (network.start key pools) config) :
    (∀ here, hosted here → Sound (key here) here config.log (config.party here)) ∧
      Causal (Justified hosted key) config.log :=
  (network_inductive hosted key).run ⟨fun _ _ => altusHost_sound _ _ _ _, Causal.nil⟩ run

/-- A host sends nothing that does not fit into the buffer of `Listener`. -/
theorem Reason.short {key : Memory} {log : List Note} {here there : Address} {datagram : Datagram}
    (reason : Reason key log here there datagram) : datagram.length ≤ 496 := by
  cases reason with
  | page form =>
      have size := (handShake_isPage form).size
      omega
  | reply form =>
      subst form
      decide
  | finish form =>
      subst form
      decide
  | talk form =>
      cases form with
      | data _ _ upper => exact upper
      | ack _ size => omega

/-- Every datagram of a host names a channel, or it begins like a handshake. -/
theorem Reason.long {key : Memory} {log : List Note} {here there : Address} {datagram : Datagram}
    (reason : Reason key log here there datagram) : 2 ≤ datagram.length := by
  cases reason with
  | page form =>
      have size := (handShake_isPage form).size
      omega
  | reply form =>
      subst form
      decide
  | finish form =>
      subst form
      decide
  | talk form =>
      cases form with
      | data _ lower => omega
      | ack _ size => omega

end Runs

section Chains

variable {hosted : Address → Prop} {key : Address → Memory} {log : List Note} {client server : Address}
  {datagram : Datagram}

/-- The notes of a handshake up to the page that its server heard. -/
def opening (client server : Address) (page : Datagram) : List Note :=
  [.asked client server, .sent client server page]

/-- The notes of a handshake up to the reply. -/
def replied (client server : Address) (page : Datagram) : List Note :=
  opening client server page ++ [.sent server client ackDatagram]

/-- The notes of a whole handshake. -/
def finished (client server : Address) (page : Datagram) : List Note :=
  replied client server page ++ [.sent client server doneDatagram]

/-- A note joins the notes before it. -/
theorem sublist_concat {notes before : List Note} {note : Note} (earlier : notes.Sublist before)
    (here : before ++ [note] <+: log) : (notes ++ [note]).Sublist log :=
  (earlier.append (List.Sublist.refl [note])).trans here.sublist

/-- A host opens a handshake only with a page, and only when its caller asked for it. -/
theorem opening_chain (causal : Causal (Justified hosted key) log) (own : hosted client)
    (sent : .sent client server datagram ∈ log) (opens : Opens datagram) :
    datagram ∈ handShake (key client) 700 ∧ (opening client server datagram).Sublist log := by
  obtain ⟨before, front, justified, -⟩ := causal.before sent
  cases justified own with
  | page form asked => exact ⟨form, sublist_concat (List.singleton_sublist.mpr asked) front⟩
  | reply form => exact absurd (form ▸ opens) ack_opens
  | finish form => exact absurd (form ▸ opens) done_opens
  | talk form => exact absurd opens.1 (form.noHeader _)

/-- A host replies only to a page. -/
theorem replied_chain (causal : Causal (Justified hosted key) log) (ownClient : hosted client)
    (ownServer : hosted server) (sent : .sent server client datagram ∈ log) (replies : Replies datagram) :
    datagram = ackDatagram ∧ ∃ page ∈ handShake (key client) 700, (replied client server page).Sublist log := by
  obtain ⟨before, front, justified, earlier⟩ := causal.before sent
  cases justified ownServer with
  | page form =>
      rw [Replies, validReply, Bool.and_eq_true, decide_eq_true_eq] at replies
      have size := (handShake_isPage form).size
      omega
  | reply form opens opened =>
      obtain ⟨page, chain⟩ := opening_chain earlier ownClient opened opens
      subst form
      exact ⟨rfl, _, page, sublist_concat chain front⟩
  | finish form => exact absurd (form ▸ replies) done_replies
  | talk form => exact absurd replies form.noReply

/-- A host finishes only a handshake that was replied to. -/
theorem finished_chain (causal : Causal (Justified hosted key) log) (ownClient : hosted client)
    (ownServer : hosted server) (sent : .sent client server datagram ∈ log) (finishes : Finishes datagram) :
    ∃ page ∈ handShake (key client) 700, (finished client server page).Sublist log := by
  obtain ⟨before, front, justified, earlier⟩ := causal.before sent
  cases justified ownClient with
  | page form =>
      rcases (handShake_isPage form).letter with letter | letter <;> rw [finishes.2] at letter <;>
        exact absurd letter (by decide)
  | reply form => exact absurd (form ▸ finishes) ack_finishes
  | finish form asked replies heard =>
      obtain ⟨-, page, member, chain⟩ := replied_chain earlier ownClient ownServer heard replies
      subst form
      exact ⟨page, member, sublist_concat chain front⟩
  | talk form => exact absurd finishes.1 (form.noHeader _)

end Chains

section Pair

/-- The address of a client. -/
def clientAddress : Address := ⟨2, networkPort 1605⟩

/-- The address of its server. -/
def serverAddress : Address := ⟨1, networkPort 1605⟩

/-- There are two hosts. -/
def pair (address : Address) : Prop := address = clientAddress ∨ address = serverAddress

/-- The host after a step that returns, and the datagrams of the step. -/
def stepped (host : Host) (step : HostStep) : Host × List Sent :=
  match host.step step with
  | .ok (_, sent, next) => (next, sent)
  | .error _ => (host, [])

/-- A network after a step of one of its hosts. -/
def act (config : Config Address Host Note) (actor : Address) (step : HostStep) : Config Address Host Note :=
  ⟨Function.update config.party actor (stepped (config.party actor) step).1,
    config.log ++ Note.ofStep actor step (stepped (config.party actor) step).2⟩

theorem act_step {hosted : Address → Prop} {config : Config Address Host Note} {actor : Address} {step : HostStep}
    (own : hosted actor) (hears : Note.Hears config.log actor step)
    (returns : ((config.party actor).step step).isOk = true) : (network hosted).Step config (act config actor step) := by
  refine .act actor ⟨own, step, ?_⟩
  rw [stepped]
  cases performed : (config.party actor).step step with
  | error fault =>
      rw [performed] at returns
      cases returns
  | ok answer => exact ⟨answer.1, answer.2.1, hears, rfl, rfl⟩

/-- `Listener` receives a datagram in a buffer of zeros. -/
def delivery (source : Address) (datagram : Datagram) : HostStep :=
  .inbound source (ofList datagram) datagram.length 0 blankRaw

theorem delivery_hears {log : List Note} {source here : Address} {datagram : Datagram}
    (sent : .sent source here datagram ∈ log) (short : datagram.length ≤ 496) :
    Note.Hears log here (delivery source datagram) := by
  refine Or.inr ⟨datagram, sent, short, rfl, ?_⟩
  have whole := @read_ofList datagram 0 datagram.length (by omega)
  rwa [shift_zero, List.drop_zero, List.take_length] at whole

/-- A page of a key of zeros. -/
def zeroPage (index : Nat) : Datagram := (handShake (fun _ => 0) 700).getD index []

def pairStart : Config Address Host Note := network.start (fun _ _ => 0) fun _ => blank.pools

def pairAsked : Config Address Host Note := act pairStart clientAddress (.connect 1 1605 (fun _ => 0) 0 0 blankRaw)

def pairOpened : Config Address Host Note := act pairAsked serverAddress (delivery clientAddress (zeroPage 0))

def pairReplied : Config Address Host Note := act pairOpened serverAddress (delivery clientAddress (zeroPage 1))

def pairFinished : Config Address Host Note := act pairReplied clientAddress (delivery serverAddress ackDatagram)

def pairMet : Config Address Host Note := act pairFinished serverAddress (delivery clientAddress doneDatagram)

/-- The whole handshake of two hosts. -/
theorem pair_run : Relation.ReflTransGen (network pair).Step pairStart pairMet := by
  have asked : (network pair).Step pairStart pairAsked := act_step (Or.inl rfl) trivial (by decide +kernel)
  have opened : (network pair).Step pairAsked pairOpened :=
    act_step (Or.inr rfl) (delivery_hears (by decide +kernel) (by decide +kernel)) (by decide +kernel)
  have replied : (network pair).Step pairOpened pairReplied :=
    act_step (Or.inr rfl) (delivery_hears (by decide +kernel) (by decide +kernel)) (by decide +kernel)
  have finished : (network pair).Step pairReplied pairFinished :=
    act_step (Or.inl rfl) (delivery_hears (by decide +kernel) (by decide +kernel)) (by decide +kernel)
  have met : (network pair).Step pairFinished pairMet :=
    act_step (Or.inr rfl) (delivery_hears (by decide +kernel) (by decide +kernel)) (by decide +kernel)
  exact .tail (.tail (.tail (.tail (.tail .refl asked) opened) replied) finished) met

end Pair

section Peers

variable {hosted : Address → Prop} {key : Address → Memory} {pools : Address → Pools}
  {config : Config Address Host Note} {here there : Address}

/-- In every run each datagram of a host has its reason among the earlier notes, and it fits into the buffer of
`Listener`. -/
theorem network.run_causal (run : Relation.ReflTransGen (network hosted).Step (network.start key pools) config) :
    Causal (Justified hosted key) config.log ∧ ∀ source target datagram, hosted source →
      .sent source target datagram ∈ config.log → datagram.length ≤ 496 := by
  have causal := (network.run_explained run).2
  refine ⟨causal, ?_⟩
  intro source target datagram own sent
  obtain ⟨before, -, justified, -⟩ := causal.before sent
  exact (justified own).short

theorem network.run_causal_pair : Causal (Justified pair fun _ _ => 0) pairMet.log := (network.run_causal pair_run).1

/-- A host has a peer at the address of another host only after a handshake with it, and the peer has the channels of
its side. -/
theorem network.run_agrees (run : Relation.ReflTransGen (network hosted).Step (network.start key pools) config)
    (ownHere : hosted here) (ownThere : hosted there) {pointer : Ptr}
    (connected : (config.party here).peers (addrToUint64 there) = some pointer) :
    ∃ peer, (config.party here).peer pointer = some peer ∧ peer.remoteAddr = there ∧
      (peer.HasDirectory .client ∧
          (∃ page ∈ handShake (key here) 700, (replied here there page).Sublist config.log) ∨
        peer.HasDirectory .server ∧
          ∃ page ∈ handShake (key there) 700, (finished there here page).Sublist config.log) := by
  obtain ⟨sounds, causal⟩ := network.run_explained run
  have sound := sounds here ownHere
  obtain ⟨-, peer, found, address⟩ := sound.listed.named _ pointer connected
  have remote : peer.remoteAddr = there := by
    rw [← addressOf_addrToUint64 peer.remoteAddr, address, addressOf_addrToUint64]
  refine ⟨peer, found, remote, ?_⟩
  obtain ⟨role, met, owns⟩ := sound.met pointer peer found
  rw [remote] at met
  cases met with
  | client asked replies heard =>
      exact Or.inl ⟨owns, (replied_chain causal ownHere ownThere heard replies).2⟩
  | server opens opened acked finishes heard =>
      exact Or.inr ⟨owns, finished_chain causal ownThere ownHere heard finishes⟩

/-- The server of the two hosts has met its client. -/
theorem network.run_agrees_pair : ∃ peer, (pairMet.party serverAddress).peer 0 = some peer ∧
    peer.remoteAddr = clientAddress := by
  obtain ⟨peer, found, address, -⟩ := network.run_agrees pair_run (Or.inr rfl) (Or.inl rfl)
    (show (pairMet.party serverAddress).peers (addrToUint64 clientAddress) = some 0 by decide +kernel)
  exact ⟨peer, found, address⟩

/-- A datagram with the header of a handshake changes nothing once its sender is a peer, and is not answered. -/
theorem network.run_inert (run : Relation.ReflTransGen (network hosted).Step (network.start key pools) config)
    (ownHere : hosted here) (connected : (config.party here).peers (addrToUint64 there) ≠ none) {buf : Memory}
    {size : Int} (header : HasHeader buf size) (currentTime : U32) (raw : Raw) :
    (config.party here).listener there buf size currentTime raw = .ok (-1, [], config.party here) := by
  have sound := (network.run_explained run).1 here ownHere
  obtain ⟨pointer, known⟩ := Option.ne_none_iff_exists'.mp connected
  obtain ⟨-, peer, found, -⟩ := sound.listed.named _ pointer known
  obtain ⟨role, -, owns⟩ := sound.met pointer peer found
  have whole := header.1
  -- The header names a channel that no peer has.
  have noChannel : peer.ch (ntohs buf 0) = none := by
    cases channel : peer.ch (ntohs buf 0) with
    | none => rfl
    | some channel => exact absurd (Role.directory_small (owns.kind (by assumption))) (HasHeader.foreign header)
  rw [listener, if_neg (by omega)]
  dsimp only
  rw [known]
  dsimp only
  rw [processPacket, found]
  dsimp only
  rw [Peer.processPacket, noChannel]
  simp only [Except.map, List.map_nil]
  rw [← found, Function.update_eq_self]

theorem network.run_inert_pair : (pairMet.party serverAddress).listener clientAddress (ofList doneDatagram) 12 0 blankRaw =
    .ok (-1, [], pairMet.party serverAddress) :=
  network.run_inert pair_run (Or.inr rfl)
    (show (pairMet.party serverAddress).peers (addrToUint64 clientAddress) ≠ none by decide +kernel)
    (by decide +kernel) 0
    blankRaw

end Peers

end Altus
