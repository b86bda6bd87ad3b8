import ProxyFleet.BatchIsolation
import ProxyFleet.MergedHistory
import ProxyFleet.RoutingTables
import Mathlib.Data.String.Basic

/-!
# Routing of batches

A process of Xray reads a configuration as a gateway: its inbounds by their ports, its rules by
the tags of inbounds, its outbounds by their tags. The shared process of a batch serves each
survivor as a process of its own would.
-/
namespace ProxyFleet

open RoutingTables

section Readings

/-- The elements of an array, and nothing of another value. -/
def Json.items : Json → List Json
  | .array items => items
  | _ => []

def Json.member (json : Json) (key : String) : List Json := ((json.get key).map Json.items).getD []

/-- An object without one of its members. -/
def Json.without (json : Json) (key : String) : Json :=
  match json with
  | .object members => .object (OrderedMap.remove members key)
  | other => other

def tagOf (json : Json) : Option Text := (json.get "tag").bind Json.asStr

def portOf (json : Json) : Option ℕ :=
  match json.get "port" with
  | some (.number (.posInt port)) => some port
  | _ => none

def ruleOf (json : Json) : Option (Rule Text) :=
  ((json.get "outboundTag").bind Json.asStr).map fun outbound =>
    ⟨(json.member "inboundTag").filterMap Json.asStr, outbound⟩

/-- The gateway that a configuration describes. An outbound is what it says beside its tag. -/
def gatewayOf (config : Json) : Gateway ℕ Text Json where
  inbounds := (config.member "inbounds").filterMap fun inbound =>
    (portOf inbound).map fun port => (port, tagOf inbound)
  rules := (((config.get "routing").map fun routing => routing.member "rules").getD []).filterMap
    ruleOf
  outbounds := (config.member "outbounds").map fun outbound =>
    (tagOf outbound, outbound.without "tag")

/-- The server that an outbound dials: the first of its settings. -/
def serverOf (outbound : Json) : Option (Text × ℕ) := do
  let settings ← outbound.get "settings"
  let server ← (settings.member "vnext" ++ settings.member "servers").head?
  let address ← (server.get "address").bind Json.asStr
  let port ← portOf server
  some (address, port)

end Readings

/-- The configuration of a process for one proxy. -/
def sessionConfig (listen : String) (port : ℕ) (outbound : Json) : Json :=
  Json.ofFields [("log", .ofFields [("loglevel", .string "warning")]),
    ("inbounds", .array [.ofFields [("listen", .string listen), ("port", .number (.posInt port)),
      ("protocol", .string "socks"), ("settings", .ofFields [("udp", .bool true)])]]),
    ("outbounds", .array [outbound])]

def inTag (index : ℕ) : Text := ("in-" ++ toString index).toList
def outTag (index : ℕ) : Text := ("out-" ++ toString index).toList

theorem toString_injective : Function.Injective (toString : ℕ → String) := by
  intro i j h
  have hdigits : Nat.toDigits 10 i = Nat.toDigits 10 j := String.ofList_injective h
  rw [← Nat.ofDigitChars_ten_toDigits (n := i), hdigits, Nat.ofDigitChars_ten_toDigits]

theorem inTag_injective : Function.Injective inTag := fun _ _ h =>
  toString_injective ((String.append_right_inj _).mp (String.toList_inj.mp h))

theorem outTag_injective : Function.Injective outTag := fun _ _ h =>
  toString_injective ((String.append_right_inj _).mp (String.toList_inj.mp h))

section Members

variable {fields : List (String × Json)} {key : String} {value : Json}

theorem get_set_ofFields : ((Json.ofFields fields).set key value).get key = some value :=
  OrderedMap.get_insert.trans (if_pos rfl)

/-- A member that is written over an object is lost with its key. -/
theorem without_set_ofFields :
    ((Json.ofFields fields).set key value).without key = (Json.ofFields fields).without key := by
  have hsorted : OrderedMap.Sorted (OrderedMap.collect fields) := OrderedMap.sorted_collect
  refine congrArg Json.object (OrderedMap.ext (OrderedMap.sorted_remove
    (OrderedMap.sorted_insert hsorted)) (OrderedMap.sorted_remove hsorted) fun other => ?_)
  rw [OrderedMap.get_remove, OrderedMap.get_remove, OrderedMap.get_insert]
  split
  · rfl
  · rfl

theorem member_ofFields_array (hkeys : (fields.map Prod.fst).Nodup) {items : List Json}
    (h : fields.lookup key = some (.array items)) : (Json.ofFields fields).member key = items := by
  rw [Json.member, get_ofFields hkeys, h]
  rfl

end Members

section Outbounds

variable {lib : Libraries} {proxy : ParsedProxy} {outbound : Json}

theorem serverOf_eq {settings server : Json} (hsettings : outbound.get "settings" = some settings)
    (hserver : (settings.member "vnext" ++ settings.member "servers").head? = some server)
    (haddress : server.get "address" = some (.string proxy.address))
    (hport : server.get "port" = some (.number (.posInt proxy.port))) :
    serverOf outbound = some (proxy.address.toList, proxy.port) := by
  simp only [serverOf, hsettings, hserver, haddress, portOf, hport, Option.bind_eq_bind,
    Option.bind_some, Json.asStr]

theorem serverOf_vnext {user : List (String × Json)}
    (h : outbound.get "settings" = some (vnextSettings proxy user)) :
    serverOf outbound = some (proxy.address.toList, proxy.port) := by
  have hserver : ((vnextSettings proxy user).member "vnext" ++
      (vnextSettings proxy user).member "servers").head? =
      some (.ofFields [("address", .string proxy.address),
        ("port", .number (.posInt proxy.port)), ("users", .array [.ofFields user])]) := by
    rw [vnextSettings, member_ofFields_array (by simp) rfl]
    rfl
  refine serverOf_eq h hserver ?_ ?_
  · exact get_ofFields (by simp) _
  · exact get_ofFields (by simp) _

theorem serverOf_servers {more : List (String × Json)}
    (hmore : ("address" :: "port" :: more.map Prod.fst).Nodup)
    (h : outbound.get "settings" = some (serverSettings proxy more)) :
    serverOf outbound = some (proxy.address.toList, proxy.port) := by
  have hvnext : (serverSettings proxy more).member "vnext" = [] := by
    rw [Json.member, serverSettings, get_ofFields (by simp)]
    rfl
  have hserver : ((serverSettings proxy more).member "vnext" ++
      (serverSettings proxy more).member "servers").head? =
      some (.ofFields ([("address", .string proxy.address),
        ("port", .number (.posInt proxy.port))] ++ more)) := by
    rw [hvnext, serverSettings, member_ofFields_array (by simp) rfl]
    rfl
  refine serverOf_eq h hserver ?_ ?_
  · exact get_ofFields (by simpa using hmore) _
  · exact get_ofFields (by simpa using hmore) _

/-- An outbound is an object of distinct fields that dials the server of its proxy. -/
theorem fields_of_xrayOutbound (h : xrayOutbound lib proxy = .ok outbound) :
    (∃ fields, outbound = Json.ofFields fields) ∧
      serverOf outbound = some (proxy.address.toList, proxy.port) := by
  unfold xrayOutbound at h
  split_ifs at h with hvless htrojan hss hsocks hvmess
  · simp only [xrayVless, bind_eq_ok, Except.ok.injEq] at h
    obtain ⟨-, -, stream, -, rfl⟩ := h
    exact ⟨⟨_, rfl⟩, serverOf_vnext (get_ofFields (by simp) _)⟩
  · simp only [xrayTrojan, bind_eq_ok, Except.ok.injEq] at h
    obtain ⟨-, -, stream, -, rfl⟩ := h
    exact ⟨⟨_, rfl⟩, serverOf_servers (by simp) (get_ofFields (by simp) _)⟩
  · obtain rfl := Except.ok.inj h
    exact ⟨⟨_, rfl⟩, serverOf_servers (by simp) (get_ofFields (by simp) _)⟩
  · obtain rfl := Except.ok.inj h
    exact ⟨⟨_, rfl⟩, serverOf_servers (by simp) (get_ofFields (by simp) _)⟩
  · simp only [xrayVmess, bind_eq_ok, Except.ok.injEq] at h
    obtain ⟨payload, -, -, -, stream, -, rfl⟩ := h
    exact ⟨⟨_, rfl⟩, serverOf_vnext (get_ofFields (by simp) _)⟩

/-- The server of an outbound does not depend on its tag. -/
theorem serverOf_without_tag (outbound : Json) :
    serverOf (outbound.without "tag") = serverOf outbound := by
  have hget : (outbound.without "tag").get "settings" = outbound.get "settings" := by
    cases outbound with
    | object members => exact OrderedMap.get_remove.trans (if_neg (by decide))
    | _ => rfl
  rw [serverOf, hget, serverOf]

end Outbounds

section Configurations

variable {lib : Libraries} {proxies : List ParsedProxy} {outbounds plain : List Json}
  {ports : List ℕ}

/-- The gateway of a process for one proxy serves its port alone. -/
theorem gatewayOf_sessionConfig (listen : String) (port : ℕ) (outbound : Json) :
    gatewayOf (sessionConfig listen port outbound) =
      direct port (tagOf outbound) (outbound.without "tag") := by
  have hinbounds : (sessionConfig listen port outbound).member "inbounds" =
      [.ofFields [("listen", .string listen), ("port", .number (.posInt port)),
        ("protocol", .string "socks"), ("settings", .ofFields [("udp", .bool true)])]] :=
    member_ofFields_array (by simp) rfl
  have houtbounds : (sessionConfig listen port outbound).member "outbounds" = [outbound] :=
    member_ofFields_array (by simp) rfl
  have hrouting : (sessionConfig listen port outbound).get "routing" = none :=
    get_ofFields (by simp) _
  rw [gatewayOf, hinbounds, houtbounds, hrouting, List.filterMap_cons, portOf, tagOf,
    get_ofFields (by simp), get_ofFields (by simp)]
  rfl

/-- The outbounds of a batch are those of its proxies under the tags of their positions. -/
theorem batchOutbounds_eq_ok (index : ℕ) (h : batchOutbounds lib index proxies = .ok outbounds) :
    ∃ plain : List Json, plain.map Except.ok = proxies.map (xrayOutbound lib) ∧
      outbounds = plain.mapIdx fun i outbound =>
        outbound.set "tag" (.text (outTag (index + i))) := by
  induction proxies generalizing index outbounds with
  | nil =>
    obtain rfl := Except.ok.inj h
    exact ⟨[], rfl, rfl⟩
  | cons proxy proxies ih =>
    simp only [batchOutbounds, bind_eq_ok, Except.ok.injEq] at h
    obtain ⟨outbound, hproxy, rest, hrest, rfl⟩ := h
    obtain ⟨plain, hplain, rfl⟩ := ih (index + 1) hrest
    refine ⟨outbound :: plain, by rw [List.map_cons, List.map_cons, hplain, hproxy], ?_⟩
    rw [List.mapIdx_cons]
    simp only [Json.text, outTag, String.ofList_toList, Nat.add_zero, Nat.add_assoc,
      Nat.add_comm 1]

theorem ruleOf_batchRule (index : ℕ) :
    ruleOf (batchRule index) = some ⟨[inTag index], outTag index⟩ := by
  have htags : (batchRule index).member "inboundTag" = [.string ("in-" ++ toString index)] :=
    member_ofFields_array (by simp) rfl
  rw [ruleOf, htags, batchRule, get_ofFields (by simp)]
  rfl

theorem filterMap_mapIdx {α β γ : Type} {f : β → Option γ} {g : ℕ → α → β} {g' : ℕ → α → γ}
    (h : ∀ i a, f (g i a) = some (g' i a)) (items : List α) :
    (items.mapIdx g).filterMap f = items.mapIdx g' := by
  induction items generalizing g g' with
  | nil => rfl
  | cons a items ih =>
    rw [List.mapIdx_cons, List.mapIdx_cons, List.filterMap_cons_some (h 0 a),
      ih fun i => h (i + 1)]

/-- The gateway of the shared process pins each port to the outbound of its position. -/
theorem gatewayOf_batchConfig (hplain : plain.map Except.ok = proxies.map (xrayOutbound lib)) :
    gatewayOf (batchConfig ports
        (plain.mapIdx fun i outbound => outbound.set "tag" (.text (outTag i)))) =
      pinned inTag outTag ports (plain.map (·.without "tag")) := by
  have hget : ∀ key, (batchConfig ports (plain.mapIdx fun i outbound =>
      outbound.set "tag" (.text (outTag i)))).get key = _ := get_ofFields (by simp)
  have hfields : ∀ outbound ∈ plain, ∃ fields, outbound = Json.ofFields fields := by
    intro outbound hmem
    have hok : Except.ok outbound ∈ proxies.map (xrayOutbound lib) :=
      hplain ▸ List.mem_map_of_mem hmem
    obtain ⟨proxy, -, hproxy⟩ := List.mem_map.mp hok
    exact (fields_of_xrayOutbound hproxy).1
  rw [gatewayOf, pinned, Gateway.mk.injEq]
  refine ⟨?_, ?_, ?_⟩
  · rw [Json.member, hget]
    refine filterMap_mapIdx (fun index port => ?_) ports
    rw [portOf, tagOf, batchInbound, get_ofFields (by simp), get_ofFields (by simp)]
    rfl
  · rw [hget]
    have hrules : (Json.ofFields [("domainStrategy", .string "AsIs"),
        ("rules", .array ((List.range ports.length).map batchRule))]).member "rules" =
        (List.range ports.length).map batchRule := member_ofFields_array (by simp) rfl
    refine (congrArg (List.filterMap ruleOf) hrules).trans ?_
    rw [List.filterMap_map, ← List.filterMap_eq_map]
    exact List.filterMap_congr fun index _ => ruleOf_batchRule index
  · rw [Json.member, hget]
    refine List.ext_getElem (by simp [List.lookup_cons, Json.items]) fun i h₁ h₂ => ?_
    have hi : i < plain.length := by simpa using h₂
    obtain ⟨fields, hfield⟩ := hfields plain[i] (List.getElem_mem hi)
    have htag : tagOf ((Json.ofFields fields).set "tag" (.text (outTag i))) = some (outTag i) := by
      rw [tagOf, get_set_ofFields]
      exact Json.asStr_text _
    simp only [List.lookup_cons, String.reduceBEq, Option.map_some, Option.getD_some, Json.items,
      List.getElem_map, List.getElem_mapIdx, hfield, htag, without_set_ofFields]

/-- What a process for one proxy does with the connections of a port. -/
def sessionEgress (lib : Libraries) (port : ℕ) (proxy : ParsedProxy) : Option Json :=
  (xrayOutbound lib proxy).toOption.bind fun outbound =>
    (gatewayOf (sessionConfig "127.0.0.1" port outbound)).egress port

theorem sessionEgress_eq {port : ℕ} {proxy : ParsedProxy} {outbound : Json}
    (h : xrayOutbound lib proxy = .ok outbound) :
    sessionEgress lib port proxy = some (outbound.without "tag") := by
  rw [sessionEgress, h, Except.toOption, Option.bind_some, gatewayOf_sessionConfig, egress_direct,
    if_pos rfl]

/-- The shared process serves exactly its ports, each as a process of its own for the proxy of
that position would. -/
theorem egress_batchConfig (h : batchOutbounds lib 0 proxies = .ok outbounds) (port : ℕ) :
    (gatewayOf (batchConfig ports outbounds)).egress port =
      ((ports.zip proxies).lookup port).bind (sessionEgress lib port) := by
  obtain ⟨plain, hplain, rfl⟩ := batchOutbounds_eq_ok 0 h
  simp only [Nat.zero_add]
  rw [gatewayOf_batchConfig hplain, egress_pinned inTag_injective outTag_injective, lookup_zip,
    lookup_zip]
  split
  · next hport =>
    have hat : (plain[ports.idxOf port]?).map Except.ok =
        (proxies[ports.idxOf port]?).map (xrayOutbound lib) := by
      rw [← List.getElem?_map, ← List.getElem?_map, hplain]
    rw [List.getElem?_map]
    cases hproxy : proxies[ports.idxOf port]? with
    | none =>
      rw [hproxy, Option.map_none, Option.map_eq_none_iff] at hat
      rw [hat]
      rfl
    | some proxy =>
      rw [hproxy, Option.map_some, Option.map_eq_some_iff] at hat
      obtain ⟨outbound, houtbound, hok⟩ := hat
      rw [houtbound, Option.bind_some, sessionEgress_eq hok.symm]
      rfl
  · rfl

end Configurations

section Survivors

variable {F : Type} [F64 F] {lib : Libraries} {config : ProbeConfig F} {world : BatchWorld}
  {survivors : List Survivor} {survivor : Survivor} {port : ℕ} {view : RelayView}

/-- However often a batch was halved, the port at which a survivor is tested is one of the ports
of a running shared process. That process serves its own ports alone, each as a process for the
proxy of that position would, and the connections of this survivor go to the server of its own
proxy. -/
theorem egress_of_tested (h : Served lib config world survivors survivor (.tested port view)) :
    ∃ path ports configuration, ∃ batch : List Survivor,
      allocatePorts (world path).scan config.testPorts batch.length = .ok ports ∧
      (world path).launch configuration = .ok () ∧
      (∀ other, (gatewayOf configuration).egress other =
        ((ports.zip batch).lookup other).bind fun member => sessionEgress lib other member.proxy) ∧
      ∃ outbound, (gatewayOf configuration).egress port = some outbound ∧
        sessionEgress lib port survivor.proxy = some outbound ∧
        serverOf outbound = some (survivor.proxy.address.toList, survivor.proxy.port) := by
  generalize hservice : Service.tested port view = service at h
  induction h with
  | overloaded => cases hservice
  | startFailed => cases hservice
  | split hfails hlength second hserved ih =>
    obtain ⟨path, rest⟩ := ih hservice
    exact ⟨second :: path, rest⟩
  | @tested world batch survivor ports i port hports hstart hsurvivor hport =>
    obtain ⟨rfl, rfl⟩ := Service.tested.inj hservice
    obtain ⟨hlength, -, outbounds, hbatch, hlaunch⟩ := startBatch_eq_ok.mp hstart
    have hegress : ∀ other, (gatewayOf (batchConfig ports outbounds)).egress other =
        ((ports.zip batch).lookup other).bind fun member =>
          sessionEgress lib other member.proxy := by
      intro other
      rw [egress_batchConfig hbatch, lookup_zip, lookup_zip]
      split
      · rw [List.getElem?_map, Option.bind_map]
        rfl
      · rfl
    obtain ⟨outbound, houtbound⟩ := (batchOutbounds_isOk 0).mp ⟨outbounds, hbatch⟩ _
      (List.mem_map_of_mem (List.mem_of_getElem? hsurvivor))
    have hsession : sessionEgress lib port survivor.proxy = some (outbound.without "tag") :=
      sessionEgress_eq houtbound
    have hmember : (ports.zip batch).lookup port = some survivor := by
      obtain ⟨hi, rfl⟩ := List.getElem?_eq_some_iff.mp hport
      rw [lookup_zip, if_pos (List.getElem_mem hi),
        (nodup_of_allocatePorts hports).idxOf_getElem i hi]
      exact hsurvivor
    refine ⟨[], ports, batchConfig ports outbounds, batch, hports, hlaunch, hegress,
      outbound.without "tag", ?_, hsession, ?_⟩
    · rw [hegress, hmember]
      exact hsession
    · rw [serverOf_without_tag]
      exact (fields_of_xrayOutbound houtbound).2

end Survivors

/-- A proxy that does not render in front of two that do, of two servers. -/
def pairedSurvivors : List Survivor :=
  mixedSurvivors.reverse ++
    [⟨"other", ⟨"feed", [], "socks", "other.example", 1081, "other", .object [], "h3"⟩, 20, false⟩]

/-- The batch is halved once, and the second half shares a process with two ports. Its second
survivor is tested at the second of them, whose connections go to its own server. -/
theorem egress_of_tested_paired :
    Served (readerLibraries [] []) ({ testPorts := ⟨20000, 20002⟩ } : ProbeConfig ℚ)
      (fun _ => openView) pairedSurvivors pairedSurvivors[2] (.tested 20001 (openView.probe 1)) ∧
    ∃ outbound, sessionEgress (readerLibraries [] []) 20001 pairedSurvivors[2].proxy =
      some outbound ∧ serverOf outbound = some ("other.example".toList, 1081) := by
  have hserved : Served (readerLibraries [] [])
      ({ testPorts := ⟨20000, 20002⟩ } : ProbeConfig ℚ) (fun _ => openView) pairedSurvivors
      pairedSurvivors[2] (.tested 20001 (openView.probe 1)) := by
    have hports : allocatePorts openView.scan ⟨20000, 20002⟩ 2 = .ok [20000, 20001] := rfl
    have hfails : StartFails (readerLibraries [] [])
        ({ testPorts := ⟨20000, 20002⟩ } : ProbeConfig ℚ) (fun _ => openView) pairedSurvivors
        "trojan password is empty" := ⟨[20000, 20001, 20002], rfl, rfl⟩
    exact .split hfails (by decide) true (.tested hports rfl rfl rfl)
  obtain ⟨-, -, -, -, -, -, -, outbound, -, hsession, hserver⟩ := egress_of_tested hserved
  exact ⟨hserved, outbound, hsession, hserver⟩

end ProxyFleet
