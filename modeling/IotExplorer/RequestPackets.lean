import IotExplorer.ControlPackets
import IotExplorer.PublishPacket

/-!
The list of topic filters in a SUBSCRIBE or UNSUBSCRIBE request: what the two
serializers write for any number of filters, against the encoding of that list.
-/
namespace IotExplorer.RequestPackets

open Protocol PacketBytes PublishPacket ControlPackets

abbrev Entry := List UInt8 × List UInt8

def listPayload (entries : List Entry) : List UInt8 :=
  entries.flatMap fun entry => mqttWriteUtf8String entry.1 ++ entry.2

/-- The remaining length of a request: the packet id and the entries. -/
def listRemLen (entries : List Entry) : ℕ :=
  2 + (entries.map fun entry => 2 + entry.1.length + entry.2.length).sum

theorem mqttWriteUint16_injective {a b : ℕ} (ha : a < 2 ^ 16) (hb : b < 2 ^ 16)
    (h : mqttWriteUint16 a = mqttWriteUint16 b) : a = b := by
  have hread := mqttReadUint16_write [] [] 0 a rfl ha
  rw [h, mqttReadUint16_write [] [] 0 b rfl hb] at hread
  exact hread.symm

/-- Filters of at most 16 bits of length are told apart by their encoding. -/
theorem listPayload_injective {xs ys : List Entry} (htails : xs.map Prod.snd = ys.map Prod.snd)
    (hxs : ∀ x ∈ xs, x.1.length < 2 ^ 16) (hys : ∀ y ∈ ys, y.1.length < 2 ^ 16)
    (h : listPayload xs = listPayload ys) : xs = ys := by
  induction xs generalizing ys with
  | nil =>
    rw [List.map_nil, eq_comm, List.map_eq_nil_iff] at htails
    exact htails.symm
  | cons x xs ih =>
    cases ys with
    | nil => cases htails
    | cons y ys =>
      obtain ⟨htail, hrest⟩ := List.cons.inj htails
      have hx := hxs x (List.mem_cons_self ..)
      have hy := hys y (List.mem_cons_self ..)
      simp only [listPayload, List.flatMap_cons, mqttWriteUtf8String, List.append_assoc,
        Nat.mod_eq_of_lt hx, Nat.mod_eq_of_lt hy] at h
      -- the two length bytes come first, and give the texts the same length
      obtain ⟨hcount, h⟩ := List.append_inj h rfl
      have hlen := mqttWriteUint16_injective hx hy hcount
      obtain ⟨htext, h⟩ := List.append_inj h hlen
      obtain ⟨-, h⟩ := List.append_inj h (congrArg List.length htail)
      have hsame := ih hrest (fun z hz => hxs z (List.mem_cons_of_mem _ hz))
        (fun z hz => hys z (List.mem_cons_of_mem _ hz)) h
      rw [Prod.ext htext htail, hsame]

/-- What a request for the listed entries has to be. The serializers read their
filters from the block of the first one, so none may start behind its end. -/
structure RequestRight (messageType : MessageType) (packetId : ℕ) (filters : List (List UInt8))
    (entries : List Entry) (packet : List UInt8) : Prop where
  inside : ∀ i < filters.length, i ≤ (filters.headD []).length
  short : ∀ filter ∈ filters, filter.length < 2 ^ 16
  type : headerType (byteAt packet 0) = messageType.code
  qos : headerQos (byteAt packet 0) = QoS.qos1.code
  body : ∃ start, mqttReadPacketRemLenFormBuf packet 1 = .ok (listRemLen entries, start) ∧
    packet.drop start = mqttWriteUint16 packetId ++ listPayload entries

/-- Every filter is what is left of the first one behind as many bytes as filters
come before it. -/
def Tails (filters : List (List UInt8)) : Prop :=
  ∀ i (_ : i < filters.length),
    i ≤ (filters.headD []).length ∧ filters[i] = (filters.headD []).drop i

/-- The header of the two requests. -/
theorem request_header (messageType : MessageType) (dup : UInt8)
    (h : messageType = .subscribe ∨ messageType = .unsubscribe) :
    ∃ header, mqttInitPacketHeader messageType .qos1 dup 0 = .ok header ∧
      headerType header = messageType.code ∧ headerQos header = QoS.qos1.code := by
  rcases h with rfl | rfl <;> refine ⟨_, rfl, ?_⟩ <;>
    rcases flag_bit dup with ⟨-, hd⟩ | ⟨-, hd⟩ <;> rw [hd] <;> decide

section Lists
variable (messageType : MessageType) (packetId : ℕ) (filters : List (List UInt8))

/-- A packet whose payload was written from `written`, where `entries` were asked for. -/
theorem requestRight_iff {header : UInt8} {written entries : List Entry}
    (htype : headerType header = messageType.code) (hqos : headerQos header = QoS.qos1.code)
    (hfilters : entries.map Prod.fst = filters)
    (htails : written.map Prod.snd = entries.map Prod.snd)
    (hwritten : written.map Prod.fst = (List.range filters.length).map (filterAt filters)) :
    RequestRight messageType packetId filters entries
        (header :: mqttWritePacketRemLen (listRemLen written % 2 ^ 32) ++
          mqttWriteUint16 packetId ++ listPayload written) ↔
      Tails filters ∧ (∀ filter ∈ filters, filter.length < 2 ^ 16) ∧
        listRemLen entries < 2 ^ 28 := by
  have hshape : ∀ remLen, header :: mqttWritePacketRemLen remLen ++ mqttWriteUint16 packetId ++
      listPayload written = [header] ++ mqttWritePacketRemLen remLen ++
        (mqttWriteUint16 packetId ++ listPayload written) := by
    intro remLen
    simp only [List.cons_append, List.nil_append, List.append_assoc]
  have hmod : listRemLen written % 2 ^ 32 < 2 ^ 32 := Nat.mod_lt _ (by decide)
  rw [hshape]
  constructor
  · intro hright
    obtain ⟨start, hread, hdrop⟩ := hright.body
    by_cases hlt : listRemLen written % 2 ^ 32 < 2 ^ 28
    · rw [mqttReadPacketRemLenFormBuf_write [header] _ 1 _ rfl hlt] at hread
      simp only [Except.ok.injEq, Prod.mk.injEq] at hread
      obtain ⟨hlen, hstart⟩ := hread
      have hfront : ([header] ++ mqttWritePacketRemLen (listRemLen written % 2 ^ 32)).length =
          start := by
        rw [List.length_append, ← hstart]
        rfl
      rw [List.drop_left' hfront] at hdrop
      have hpayload := (List.append_inj hdrop rfl).2
      have hentries : ∀ entry ∈ entries, entry.1.length < 2 ^ 16 := by
        intro entry hentry
        exact hright.short _ (hfilters ▸ List.mem_map_of_mem hentry)
      -- what was written are tails of the first filter, which is short
      have hshort : ∀ entry ∈ written, entry.1.length < 2 ^ 16 := by
        intro entry hentry
        have hmem : entry.1 ∈ written.map Prod.fst := List.mem_map_of_mem hentry
        rw [hwritten] at hmem
        obtain ⟨i, hi, hat⟩ := List.mem_map.mp hmem
        have hfirst : (filters.headD []).length < 2 ^ 16 := by
          cases filters with
          | nil => simp at hi
          | cons filter rest => exact hright.short filter (List.mem_cons_self ..)
        rw [← hat, filterAt, List.length_drop]
        omega
      have hsame := listPayload_injective htails hshort hentries hpayload
      have hat : filters = (List.range filters.length).map (filterAt filters) := by
        rw [← hwritten, hsame, hfilters]
      refine ⟨?_, hright.short, ?_⟩
      · intro i hi
        refine ⟨hright.inside i hi, ?_⟩
        have hget := List.getElem_of_eq hat hi
        rw [List.getElem_map, List.getElem_range] at hget
        exact hget
      · omega
    · rw [mqttReadPacketRemLenFormBuf_write_eq_error [header] _ 1 _ rfl (by omega) (by omega)]
        at hread
      cases hread
  · rintro ⟨hthere, hshort, hlt⟩
    have hat : (List.range filters.length).map (filterAt filters) = filters := by
      apply List.ext_getElem
      · simp
      · intro i hi hi'
        rw [List.getElem_map, List.getElem_range]
        exact (hthere i hi').2.symm
    have hsame : written = entries := by
      rw [← List.zip_unzip written, ← List.zip_unzip entries, List.unzip_fst, List.unzip_snd,
        List.unzip_fst, List.unzip_snd, htails, hwritten, hat, hfilters]
    rw [hsame, Nat.mod_eq_of_lt (by omega)]
    refine ⟨fun i hi => (hthere i hi).1, hshort, htype, hqos, _,
      mqttReadPacketRemLenFormBuf_write [header] _ 1 _ rfl hlt, ?_⟩
    apply List.drop_left'
    rw [List.length_append]
    rfl

/-- The entries of a SUBSCRIBE request: each filter with its quality of service. -/
def subscribeEntries (qoss : List QoS) : List Entry :=
  List.zipWith (fun filter (qos : QoS) => (filter, [qos.code])) filters qoss

/-- The entries of an UNSUBSCRIBE request. -/
def unsubscribeEntries : List Entry := filters.map fun filter => (filter, [])

theorem serializeSubscribePacket_eq_ok {bufLen : ℕ} {dup : UInt8} {qoss : List QoS}
    {packet : List UInt8}
    (h : serializeSubscribePacket bufLen dup packetId filters.length filters qoss = .ok packet) :
    ∃ header written, headerType header = MessageType.subscribe.code ∧
      headerQos header = QoS.qos1.code ∧
      written = (List.range filters.length).map (fun i =>
        (filterAt filters i, [(qoss.getD i .qos0).code])) ∧
      getMqttPacketLen (listRemLen written % 2 ^ 32) ≤ bufLen ∧
      packet = header :: mqttWritePacketRemLen (listRemLen written % 2 ^ 32) ++
        mqttWriteUint16 packetId ++ listPayload written := by
  obtain ⟨header, hheader, htype, hqos⟩ := request_header .subscribe dup (.inl rfl)
  refine ⟨header, _, htype, hqos, rfl, ?_⟩
  have hremLen : getSubscribePacketRemLen filters.length filters =
      listRemLen ((List.range filters.length).map fun i =>
        (filterAt filters i, [(qoss.getD i .qos0).code])) % 2 ^ 32 := by
    simp only [getSubscribePacketRemLen, listRemLen, List.map_map, Function.comp_def,
      List.length_singleton]
  simp only [serializeSubscribePacket, hheader] at h
  split at h
  · cases h
  · next hlen =>
    refine ⟨by rw [← hremLen]; omega, ?_⟩
    simp only [listPayload, List.flatMap_map, ← hremLen]
    exact (Except.ok.inj h).symm

theorem serializeUnsubscribePacket_eq_ok {bufLen : ℕ} {dup : UInt8} {packet : List UInt8}
    (h : serializeUnsubscribePacket bufLen dup packetId filters.length filters = .ok packet) :
    ∃ header written, headerType header = MessageType.unsubscribe.code ∧
      headerQos header = QoS.qos1.code ∧
      written = (List.range filters.length).map (fun i => (filterAt filters i, [])) ∧
      getMqttPacketLen (listRemLen written % 2 ^ 32) ≤ bufLen ∧
      packet = header :: mqttWritePacketRemLen (listRemLen written % 2 ^ 32) ++
        mqttWriteUint16 packetId ++ listPayload written := by
  obtain ⟨header, hheader, htype, hqos⟩ := request_header .unsubscribe dup (.inr rfl)
  refine ⟨header, _, htype, hqos, rfl, ?_⟩
  have hremLen : getUnsubscribePacketRemLen filters.length filters =
      listRemLen ((List.range filters.length).map fun i => (filterAt filters i, [])) % 2 ^ 32 := by
    simp only [getUnsubscribePacketRemLen, listRemLen, List.map_map, Function.comp_def,
      List.length_nil, Nat.add_zero]
  simp only [serializeUnsubscribePacket, hheader] at h
  split at h
  · cases h
  · next hlen =>
    refine ⟨by rw [← hremLen]; omega, ?_⟩
    simp only [listPayload, List.flatMap_map, List.append_nil, ← hremLen]
    exact (Except.ok.inj h).symm

theorem subscribeEntries_tails {qoss : List QoS} (h : qoss.length = filters.length) :
    ((List.range filters.length).map fun i =>
      (filterAt filters i, [(qoss.getD i .qos0).code])).map Prod.snd =
      (subscribeEntries filters qoss).map Prod.snd := by
  apply List.ext_getElem
  · simp only [subscribeEntries, List.length_map, List.length_range, List.length_zipWith]
    omega
  · intro i hi hi'
    have hlt : i < qoss.length := by
      simp only [List.length_map, List.length_range] at hi
      omega
    simp only [subscribeEntries, List.getElem_map, List.getElem_range, List.getElem_zipWith,
      List.getD_eq_getElem _ _ hlt]

theorem subscribeEntries_filters {qoss : List QoS} (h : qoss.length = filters.length) :
    (subscribeEntries filters qoss).map Prod.fst = filters := by
  apply List.ext_getElem
  · simp only [subscribeEntries, List.length_map, List.length_zipWith]
    omega
  · intro i hi hi'
    simp only [subscribeEntries, List.getElem_map, List.getElem_zipWith]

/-- Both requests are the encoding of their list exactly if the filters are the
tails of the first one; this is so for one filter. -/
theorem serialize_requests_right_iff (bufLen : ℕ) (dup : UInt8) (qoss : List QoS)
    (packet : List UInt8) (hqoss : qoss.length = filters.length) :
    (serializeSubscribePacket bufLen dup packetId filters.length filters qoss = .ok packet →
      (RequestRight .subscribe packetId filters (subscribeEntries filters qoss) packet ↔
        Tails filters ∧ (∀ filter ∈ filters, filter.length < 2 ^ 16) ∧
          listRemLen (subscribeEntries filters qoss) < 2 ^ 28)) ∧
    (serializeUnsubscribePacket bufLen dup packetId filters.length filters = .ok packet →
      (RequestRight .unsubscribe packetId filters (unsubscribeEntries filters) packet ↔
        Tails filters ∧ (∀ filter ∈ filters, filter.length < 2 ^ 16) ∧
          listRemLen (unsubscribeEntries filters) < 2 ^ 28)) := by
  constructor
  · intro h
    obtain ⟨header, written, htype, hqos, hwritten, -, rfl⟩ :=
      serializeSubscribePacket_eq_ok packetId filters h
    apply requestRight_iff .subscribe packetId filters htype hqos
    · exact subscribeEntries_filters filters hqoss
    · rw [hwritten]
      exact subscribeEntries_tails filters hqoss
    · simp only [hwritten, List.map_map, Function.comp_def]
  · intro h
    obtain ⟨header, written, htype, hqos, hwritten, -, rfl⟩ :=
      serializeUnsubscribePacket_eq_ok packetId filters h
    apply requestRight_iff .unsubscribe packetId filters htype hqos
    · simp only [unsubscribeEntries, List.map_map, Function.comp_def, List.map_id']
    · simp only [hwritten, unsubscribeEntries, List.map_map, Function.comp_def, List.map_const',
        List.length_range]
    · simp only [hwritten, List.map_map, Function.comp_def]

end Lists

theorem tails_two : Tails [[97, 47, 98], [47, 98]] := by
  intro i hi
  have hcases : i = 0 ∨ i = 1 := by
    simp only [List.length_cons, List.length_nil] at hi
    omega
  rcases hcases with rfl | rfl
  · exact ⟨Nat.zero_le _, rfl⟩
  · exact ⟨by decide, rfl⟩

/-- Both requests for two filters, of which the second is what is left of the first. -/
theorem serialize_requests_right_iff_tail :
    (serializeSubscribePacket 64 0 7 2 [[97, 47, 98], [47, 98]] [.qos1, .qos0] =
        .ok [0x82, 13, 0, 7, 0, 3, 97, 47, 98, 1, 0, 2, 47, 98, 0] ∧
      RequestRight .subscribe 7 [[97, 47, 98], [47, 98]]
        (subscribeEntries [[97, 47, 98], [47, 98]] [.qos1, .qos0])
        [0x82, 13, 0, 7, 0, 3, 97, 47, 98, 1, 0, 2, 47, 98, 0]) ∧
    (serializeUnsubscribePacket 64 0 7 2 [[97, 47, 98], [47, 98]] =
        .ok [0xA2, 11, 0, 7, 0, 3, 97, 47, 98, 0, 2, 47, 98] ∧
      RequestRight .unsubscribe 7 [[97, 47, 98], [47, 98]]
        (unsubscribeEntries [[97, 47, 98], [47, 98]])
        [0xA2, 11, 0, 7, 0, 3, 97, 47, 98, 0, 2, 47, 98]) := by
  have hshort : ∀ filter ∈ [([97, 47, 98] : List UInt8), [47, 98]], filter.length < 2 ^ 16 := by
    decide
  have hsub : serializeSubscribePacket 64 0 7 2 [[97, 47, 98], [47, 98]] [.qos1, .qos0] =
      .ok [0x82, 13, 0, 7, 0, 3, 97, 47, 98, 1, 0, 2, 47, 98, 0] := by decide
  have hunsub : serializeUnsubscribePacket 64 0 7 2 [[97, 47, 98], [47, 98]] =
      .ok [0xA2, 11, 0, 7, 0, 3, 97, 47, 98, 0, 2, 47, 98] := by decide
  refine ⟨⟨hsub, ?_⟩, hunsub, ?_⟩
  · apply ((serialize_requests_right_iff 7 [[97, 47, 98], [47, 98]] 64 0 [.qos1, .qos0] _
      rfl).1 hsub).mpr
    exact ⟨tails_two, hshort, by decide⟩
  · apply ((serialize_requests_right_iff 7 [[97, 47, 98], [47, 98]] 64 0 [.qos1, .qos0] _
      rfl).2 hunsub).mpr
    exact ⟨tails_two, hshort, by decide⟩

/-- Of the filters `ab` and `cd` the second goes out as `b`. -/
theorem serialize_requests_two_filters :
    serializeSubscribePacket 64 0 7 2 [[97, 98], [99, 100]] [.qos0, .qos0] =
        .ok [0x82, 11, 0, 7, 0, 2, 97, 98, 0, 0, 1, 98, 0] ∧
      serializeUnsubscribePacket 64 0 7 2 [[97, 98], [99, 100]] =
        .ok [0xA2, 9, 0, 7, 0, 2, 97, 98, 0, 1, 98] ∧
      ¬ (∀ (bufLen : ℕ) (dup : UInt8) (packetId : ℕ) (filters : List (List UInt8))
          (qoss : List QoS) (packet : List UInt8),
        1 ≤ filters.length → qoss.length = filters.length →
        (serializeSubscribePacket bufLen dup packetId filters.length filters qoss = .ok packet →
          RequestRight .subscribe packetId filters (subscribeEntries filters qoss) packet) ∧
        (serializeUnsubscribePacket bufLen dup packetId filters.length filters = .ok packet →
          RequestRight .unsubscribe packetId filters (unsubscribeEntries filters) packet)) := by
  have hsub : serializeSubscribePacket 64 0 7 2 [[97, 98], [99, 100]] [.qos0, .qos0] =
      .ok [0x82, 11, 0, 7, 0, 2, 97, 98, 0, 0, 1, 98, 0] := by decide
  refine ⟨hsub, by decide, ?_⟩
  intro hall
  obtain ⟨start, hread, -⟩ := ((hall 64 0 7 [[97, 98], [99, 100]] [.qos0, .qos0] _ (by decide)
    rfl).1 hsub).body
  have helf : mqttReadPacketRemLenFormBuf [0x82, 11, 0, 7, 0, 2, 97, 98, 0, 0, 1, 98, 0] 1 =
      .ok (11, 2) := by decide
  rw [helf] at hread
  cases hread

end IotExplorer.RequestPackets
