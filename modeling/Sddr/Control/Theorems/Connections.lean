import Sddr.Control.Deliveries
import Sddr.Control.Lemmas.Connections
import Sddr.Device.Lemmas.Accounts
import Sddr.Radio.Theorems.BT4

/-! # Main result about connections -/

namespace Sddr.Control.Network
open Sddr.Lib Sddr.Codec Sddr.Device Sddr.Radio Sddr.Erasure

/-- Both sides of every connection add the secret of the keys that were exchanged, in every run in which the responder
drains its queue with the key that the queued messages were answered with. -/
theorem connections_agree {N P : Type} [DecidableEq N] [FloatOps P] {ec : Ec} (hlaws : ec.Laws)
    (sha256 : List Byte → Digest) (g : Galois) (digest : List Byte → Nat) {radio : N → EbNRadioBT4 P ec}
    (hnew : ∀ party, ∃ confirmScheme memoryScheme now key randomAddress,
      EbNRadioBT4.new g confirmScheme memoryScheme now key randomAddress = some (radio party))
    {events : List (NetworkEvent N P ec)} (hcurrent : Along (act sha256 g digest) Current events ⟨radio, []⟩)
    {n : Network N P ec} (hrun : runs (act sha256 g digest) events ⟨radio, []⟩ = some n) :
    ∀ c ∈ n.connections, c.Agrees := by
  have hstart : Sound (⟨radio, []⟩ : Network N P ec) := by
    refine ⟨fun party => ?_, fun c hc => absurd hc List.not_mem_nil⟩
    obtain ⟨_, _, _, key, _, hparty⟩ := hnew party
    obtain ⟨_, -, hradio⟩ := Option.map_eq_some_iff.mp hparty
    exact ⟨key, congrArg EbNRadioBT4.dhExchange hradio.symm⟩
  have hsound : n.Sound := runs_keep (fun _ _ _ h hmeets hact => h.act hlaws hmeets hact) hstart hcurrent hrun
  exact fun c hc => (hsound.connections c hc).agrees

/-! ## What a connection does to its radios -/

section
variable {N P : Type} [FloatOps P] {ec : Ec} {sha256 : List Byte → Digest} (r : EbNRadioBT4 P ec)

/-- The secret that is added is a confirmed one of the device then. -/
theorem processActiveHandshake_confirms {message : List Byte} {value : LinkValue}
    (hadded : r.addedSecret sha256 message = some value) (device : EbNDevice P) :
    value ∈ confirmedValues (r.processActiveHandshake sha256 message device).sharedSecrets := by
  rw [EbNRadioBT4.addedSecret_eq] at hadded
  split_ifs at hadded with hlength
  obtain ⟨secret, hsecret, rfl⟩ := Option.map_eq_some_iff.mp hadded
  obtain ⟨_, -, hkey⟩ := Option.bind_eq_some_iff.mp hsecret
  obtain ⟨_, -, rfl⟩ := Option.map_eq_some_iff.mp hkey
  unfold EbNRadioBT4.processActiveHandshake
  dsimp only
  rw [if_neg (not_not.mpr hlength), hsecret]
  exact mem_confirmedValues_addSharedSecret device rfl

/-- It is the one that a queued message confirms. -/
theorem secretOf_value (c : EbNControllerBT4 P ec) (message : List Byte) :
    (c.secretOf message).map SharedSecret.value = c.radio.addedSecret sha256 message := by
  rw [EbNRadioBT4.addedSecret_eq, EbNControllerBT4.secretOf]
  split_ifs <;> rfl

/-- The steps of the listener thread are `listen`, if nothing comes between them. -/
theorem listen_served (rand : Nat → Nat) {c : Connection N ec} (hwaiting : c.server = .waiting) {message : List Byte}
    (hmessage : c.toServer = some message) (hactive : r.confirmScheme.type.hasActive = true)
    (hlength : message.length = r.dhExchange.getPublicSize + (BT4.ACTIVE_BF_M + 7) / 8) :
    ∃ steps c', runs (fun s (success : Bool) => Connection.serverStep sha256 s.1 rand success s.2)
        (List.replicate steps true) (r, c) = some (r.listen c.clientAddress message, c') ∧ c'.server.serving = false := by
  have hsize : decide (message.length = r.dhExchange.getPublicSize + (BT4.ACTIVE_BF_M + 7) / 8) = true :=
    decide_eq_true hlength
  let localMessage := r.generateActiveHandshake sha256 rand r.dhExchange
  let step := fun (s : EbNRadioBT4 P ec × Connection N ec) (success : Bool) => s.2.serverStep sha256 s.1 rand success
  unfold EbNRadioBT4.listen
  dsimp only
  rw [hactive, hsize, Bool.true_and, Bool.and_true]
  cases haddress : c.clientAddress.verifyChecksum with
  | false =>
      refine ⟨1, { c with server := .closed }, ?_, rfl⟩
      simp [runs, Connection.serverStep, hwaiting, hactive, haddress]
  | true =>
      let c₁ := { c with dhExchangeCopy := some r.dhExchange, server := .receiving localMessage }
      have haccept : c.serverStep sha256 r rand true = some (r, c₁) := by
        unfold Connection.serverStep
        rw [hwaiting]
        dsimp only
        rw [if_pos hactive, if_pos haddress]
      let c₂ := { c₁ with
        toServer := none
        server := if message.any (· ≠ 0) then .sending localMessage message else .closed }
      have hreceive : c₁.serverStep sha256 r rand true = some (r, c₂) := congrArg (Option.map _) hmessage
      have htwo : ∀ steps,
          runs step (List.replicate (steps + 2) true) (r, c) = runs step (List.replicate steps true) (r, c₂) := by
        intro steps
        show (c.serverStep sha256 r rand true).bind _ = _
        rw [haccept]
        show (c₁.serverStep sha256 r rand true).bind _ = _
        rw [hreceive]
        rfl
      cases hzero : message.any (· ≠ 0) with
      | false =>
          refine ⟨2, { c₁ with toServer := none, server := .closed }, (htwo 0).trans ?_, rfl⟩
          simp only [c₂, hzero]
          rfl
      | true =>
          refine ⟨4, { c₁ with
            toServer := none, toClient := some localMessage, server := .queued r.listenAdverts.length },
            (htwo 2).trans ?_, rfl⟩
          simp only [c₂, hzero]
          rfl

end

/-! ## Two radios -/

instance : DecidableEq byteCurve.Key := inferInstanceAs (DecidableEq Byte)

/-- The radio of the initiator, for `true`, and that of the responder. -/
def pair : Option (Network Bool LogRate byteCurve) :=
  (EbNRadioBT4.new galoisShift ⟨.Active, some 4⟩ .Standard 0 (3 : Byte) (List.replicate 6 0)).bind fun initiator =>
    (EbNRadioBT4.new galoisShift ⟨.Active, some 4⟩ .Standard 0 (5 : Byte) [1, 0, 1, 0, 0, 0]).map fun responder =>
      ⟨fun party => if party then initiator else responder, []⟩

theorem pair_new : ∃ radio : Bool → EbNRadioBT4 LogRate byteCurve, pair = some ⟨radio, []⟩ ∧
    ∀ party, ∃ confirmScheme memoryScheme now key randomAddress,
      EbNRadioBT4.new galoisShift confirmScheme memoryScheme now key randomAddress = some (radio party) := by
  obtain ⟨initiator, hinitiator⟩ := EbNRadioBT4.new_logRate ⟨.Active, some 4⟩ .Standard 0 (3 : Byte) (List.replicate 6 0)
  obtain ⟨responder, hresponder⟩ := EbNRadioBT4.new_logRate ⟨.Active, some 4⟩ .Standard 0 (5 : Byte) [1, 0, 1, 0, 0, 0]
  refine ⟨fun party => if party then initiator else responder, ?_, fun party => ?_⟩
  · rw [pair, hinitiator, hresponder]
    rfl
  · cases party with
    | true => exact ⟨_, _, _, _, _, hinitiator⟩
    | false => exact ⟨_, _, _, _, _, hresponder⟩

/-- The initiator hears the responder. -/
def hear (r : EbNRadioBT4 LogRate byteCurve) : EbNRadioBT4 LogRate byteCurve :=
  let response : Response (fun _ => 0) (EbNDeviceBT4 LogRate byteCurve) :=
    ⟨[1, 0, 1, 0, 0, 0], 1000, 200, oneBucket,
      EbNRadioBT4.advertEffect galoisShift r 1000 (Mem.ofList (List.replicate 31 0))⟩
  match r.toEbNRadio.discover .Bluetooth4 (fun _ => 0) [response] 13500 with
  | some (_, base) => { r with toEbNRadio := base }
  | none => r

/-- The initiator connects, and its message is drained after the events `between`. -/
def visit (between : List (NetworkEvent Bool LogRate byteCurve)) : List (NetworkEvent Bool LogRate byteCurve) :=
  [.other true hear, .connect true false 0 (fun _ => 0), .server 0 (fun _ => 0) true, .client 0 true,
    .server 0 (fun _ => 0) true, .server 0 (fun _ => 0) true, .server 0 (fun _ => 0) true, .client 0 true]
    ++ between ++ [.drain false fun _ => oneBucket]

def secrets (n : Network Bool LogRate byteCurve) : List (Option LinkValue × Option LinkValue) :=
  n.connections.map fun c => (c.initiatorSecret, c.responderSecret)

theorem visit_runs {between : List (NetworkEvent Bool LogRate byteCurve)}
    {outcome : List (Option LinkValue × Option LinkValue)}
    (h : (pair.bind fun n => (runs (act (fun _ => 0) galoisShift (fun _ => 0)) (visit between) n).map secrets)
      = some outcome) :
    ∃ radio n, pair = some ⟨radio, []⟩ ∧
      (∀ party, ∃ confirmScheme memoryScheme now key randomAddress,
        EbNRadioBT4.new galoisShift confirmScheme memoryScheme now key randomAddress = some (radio party)) ∧
      runs (act (fun _ => 0) galoisShift (fun _ => 0)) (visit between) ⟨radio, []⟩ = some n ∧ secrets n = outcome := by
  obtain ⟨radio, hpair, hnew⟩ := pair_new
  rw [hpair, Option.bind_some] at h
  obtain ⟨n, hrun, hsecrets⟩ := Option.map_eq_some_iff.mp h
  exact ⟨radio, n, hpair, hnew, hrun, hsecrets⟩

theorem connections_agree_visit :
    ∃ (radio : Bool → EbNRadioBT4 LogRate byteCurve) (n : Network Bool LogRate byteCurve),
      (∀ party, ∃ confirmScheme memoryScheme now key randomAddress,
        EbNRadioBT4.new galoisShift confirmScheme memoryScheme now key randomAddress = some (radio party)) ∧
      Along (act (fun _ => 0) galoisShift (fun _ => 0)) Current (visit []) ⟨radio, []⟩ ∧
      runs (act (fun _ => 0) galoisShift (fun _ => 0)) (visit []) ⟨radio, []⟩ = some n ∧
      secrets n = [(some (15 :: List.replicate 23 0), some (15 :: List.replicate 23 0))] ∧
      ∀ c ∈ n.connections, c.Agrees := by
  obtain ⟨radio, n, hpair, hnew, hrun, hsecrets⟩ :=
    @visit_runs [] [(some (15 :: List.replicate 23 0), some (15 :: List.replicate 23 0))] (by decide +kernel)
  have hmeets : (pair.map fun n => decide (Along (act (fun _ => 0) galoisShift (fun _ => 0)) Current (visit []) n))
      = some true := by
    decide +kernel
  rw [hpair] at hmeets
  have hcurrent := of_decide_eq_true (Option.some.inj hmeets)
  exact ⟨radio, n, hnew, hcurrent, hrun, hsecrets,
    connections_agree byteCurve_laws (fun _ => 0) galoisShift (fun _ => 0) hnew hcurrent hrun⟩

/-- With a change of epoch before the drain, each side adds another secret. -/
theorem connections_differ :
    ∃ (radio : Bool → EbNRadioBT4 LogRate byteCurve) (n : Network Bool LogRate byteCurve),
      (∀ party, ∃ confirmScheme memoryScheme now key randomAddress,
        EbNRadioBT4.new galoisShift confirmScheme memoryScheme now key randomAddress = some (radio party)) ∧
      runs (act (fun _ => 0) galoisShift (fun _ => 0)) (visit [.changeEpoch false (7 : Byte) [1, 0, 1, 1, 0, 1]]) ⟨radio, []⟩
        = some n ∧
      secrets n = [(some (15 :: List.replicate 23 0), some (21 :: List.replicate 23 0))] ∧
      ∃ c ∈ n.connections, ¬ c.Agrees := by
  obtain ⟨radio, n, -, hnew, hrun, hsecrets⟩ :=
    @visit_runs [.changeEpoch false (7 : Byte) [1, 0, 1, 1, 0, 1]]
      [(some (15 :: List.replicate 23 0), some (21 :: List.replicate 23 0))] (by decide +kernel)
  refine ⟨radio, n, hnew, hrun, hsecrets, ?_⟩
  obtain ⟨c, hc, hboth⟩ := List.map_eq_singleton_iff.mp hsecrets
  obtain ⟨hinitiator, hresponder⟩ := Prod.mk.inj hboth
  refine ⟨c, hc ▸ List.mem_singleton_self c, fun hagrees => ?_⟩
  obtain ⟨-, hsame⟩ := hagrees.2 _ hresponder
  exact absurd (hsame _ hinitiator) (by decide)

end Sddr.Control.Network
