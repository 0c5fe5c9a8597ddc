import IotExplorer.Basis.JsonScan
import IotExplorer.EventDocuments

/-!
What the documents of events and of the replies to actions are as JSON. A document that
is said to be a success is an object with the given items exactly if there are items in
every event, and each of them is printed as a value: the last brace of the items replaces
the character in front of it, which is the comma of an item only if there is one.
-/
namespace IotExplorer.EventObjects

open Basis.JsonText Basis.Decimals Basis.JsonScan TemplateJson DeviceProperty ReportArray
open EventDocuments

section Meaning

/-- The value that an item has in a document. -/
def ItemRenders (item : Item) (layout : Layout) (value : Json) : Prop :=
  match item.data with
  | .null => value = .null
  | .scalar (.boolean flag) => value = .number (signedNumber (if flag then 1 else 0))
  | .scalar (.array text _) => value = .string text
  | .scalar data => scalarJson data = some value
  | .object text => text.val = layout.beforeValue ++ value.text ++ layout.afterValue
  | .unknown => False

/-- The members of an object are these items in order, each under its key. -/
def ItemsRender : List Item → List (Layout × Json) → Prop :=
  List.Forall₂ fun item member =>
    item.key.elim False (fun key => member.1.name = key.val) ∧ ItemRenders item member.1 member.2

def EventMembers (event : PostedEvent) (members : List (Layout × Json)) : Prop :=
  ∃ id type timestamp params inner items,
    members = [(id, .string (shown event.eventName)), (type, .string (shown event.type)),
      (timestamp, .number (signedNumber (event.timestamp.toNat * 1000 : ℕ))),
      (params, .object inner items)] ∧
    id.name = ascii "eventId" ∧ type.name = ascii "type" ∧ timestamp.name = ascii "timestamp" ∧
    params.name = ascii "params" ∧ ItemsRender (itemsOf event.eventData) items

/-- The members behind the client token: those of a single event, or an array of several. -/
def EventsRender (events : List PostedEvent) (members : List (Layout × Json)) : Prop :=
  match events with
  | [] => members = []
  | [event] => EventMembers event members
  | events => ∃ layout blank items, members = [(layout, .array blank items)] ∧
      layout.name = ascii "events" ∧
      List.Forall₂ (fun event item =>
        ∃ blank members, item.2 = .object blank members ∧ EventMembers event members) events items

/-- The text is a JSON object with this method, this client token and more members. -/
def HoldsObject (method token text : List UInt8) (more : List (Layout × Json) → Prop) : Prop :=
  ∃ blank methodLayout tokenLayout members,
    let value := Json.object blank
      ((methodLayout, .string method) :: (tokenLayout, .string token) :: members)
    text = value.text ∧ value.wellFormed = true ∧ methodLayout.name = ascii "method" ∧
      tokenLayout.name = ascii "clientToken" ∧ more members

/-- The text is a JSON object with the events. -/
def HoldsEvents (token : List UInt8) (events : List PostedEvent) (text : List UInt8) : Prop :=
  HoldsObject (eventMethod events.length) token text (EventsRender events)

/-- The members of a reply behind the client token. -/
def ReplyRender (code : Int32) (statusMsg : CString) (output : List Item)
    (members : List (Layout × Json)) : Prop :=
  ∃ codeLayout status response inner items,
    members = [(codeLayout, .number (signedNumber code.toInt)), (status, .string statusMsg),
      (response, .object inner items)] ∧
    codeLayout.name = ascii "code" ∧ status.name = ascii "status" ∧
    response.name = ascii "response" ∧ ItemsRender output items

/-- The text is a JSON object with the reply. -/
def HoldsReply (token : List UInt8) (code : Int32) (statusMsg : CString) (output : List Item)
    (text : List UInt8) : Prop :=
  HoldsObject (ascii "action_reply") token text (ReplyRender code statusMsg output)

/-- The key of an item, and its text if that is put between quotes, need no escapes. -/
def plainItem (item : Item) : Bool :=
  ReportArray.plain (shown item.key) &&
    match item.data with
    | .scalar (.string text _) => ReportArray.plain text
    | .scalar (.array text _) => ReportArray.plain text
    | _ => true

def plainEvent (event : PostedEvent) : Bool :=
  ReportArray.plain (shown event.eventName) && ReportArray.plain (shown event.type) &&
    (itemsOf event.eventData).all plainItem

/-- What is printed for an item is a JSON value: a number that is finite, and the text of an
object that is one. -/
def JsonItem (item : Item) : Prop :=
  match item.data with
  | .scalar data => scalarFinite data = true
  | .object text => ∃ before value after, before.all isBlank = true ∧ after.all isBlank = true ∧
      Json.wellFormed value = true ∧ text.val = before ++ value.text ++ after
  | _ => True

/-- There are items, and all are printed as JSON values. -/
def JsonItems (items : List Item) : Prop := items ≠ [] ∧ ∀ item ∈ items, JsonItem item

end Meaning

section Items
variable {item : Item} {items : List Item}

/-- What is printed for an item is a member of an object. -/
structure ItemMember (item : Item) (layout : Layout) (value : Json) : Prop where
  spelled : layout.wellFormed = true
  wellFormed : value.wellFormed = true
  key : item.key.elim False fun key => layout.name = key.val
  renders : ItemRenders item layout value
  text : itemText item = layout.front ++ value.text ++ layout.afterValue ++ [comma]

/-- A value that is printed with no blanks around it. -/
theorem exists_printed {key : CString} {data : ItemData} (hkey : plain key.val = true)
    (value : Json)
    (hwf : value.wellFormed = true) (htext : data.text = some value.text)
    (hrenders : ∀ layout, ItemRenders ⟨some key, data⟩ layout value) :
    ∃ layout value, ItemMember ⟨some key, data⟩ layout value := by
  refine ⟨⟨[], key.val, [], [], []⟩, value, ?_, hwf, rfl, hrenders _, ?_⟩
  · simp [Layout.wellFormed, rawString_of_plain hkey]
  · have hfront := keyText_eq ⟨[], key.val, [], [], []⟩ (k := key) rfl rfl rfl
    rw [List.append_nil] at hfront
    rw [itemText, htext, Option.getD_some, hfront, List.append_nil, List.append_assoc]

/-- A scalar that is printed as in a report. -/
theorem exists_scalar {key : CString} {data : Scalar} {value : Json} (hkey : plain key.val = true)
    (hvalue : scalarJson data = some value) (hwf : value.wellFormed = true)
    (htext : ItemData.text (.scalar data) = some data.text)
    (hrenders : ∀ layout, ItemRenders ⟨some key, .scalar data⟩ layout value) :
    ∃ layout value, ItemMember ⟨some key, .scalar data⟩ layout value :=
  exists_printed hkey value hwf (htext.trans (congrArg some (scalarJson_text hvalue).symm)) hrenders

theorem exists_itemMember (hwritable : item.writable = true) (hplain : plainItem item = true)
    (hjson : JsonItem item) : ∃ layout value, ItemMember item layout value := by
  obtain ⟨key, data⟩ := item
  rw [Item.writable, Bool.and_eq_true] at hwritable
  obtain ⟨hsome, hknown⟩ := hwritable
  obtain ⟨key, rfl⟩ := Option.isSome_iff_exists.mp hsome
  rw [plainItem, Bool.and_eq_true] at hplain
  obtain ⟨hkey, hdata⟩ := hplain
  have hkey : plain key.val = true := hkey
  cases data with
  | null => exact exists_printed hkey .null rfl (by decide) fun _ => rfl
  | unknown => cases hknown
  | object text =>
    obtain ⟨before, value, after, hbefore, hafter, hwf, htext⟩ := hjson
    have hraw : rawString key.val = true := rawString_of_plain hkey
    refine ⟨⟨[], key.val, [], before, after⟩, value, ?_, hwf, rfl, htext, ?_⟩
    · simp [Layout.wellFormed, hraw, hbefore, hafter]
    · have hfront := keyText_eq ⟨[], key.val, [], before, after⟩ (k := key) rfl rfl rfl
      rw [itemText, ← hfront, ItemData.text, Option.getD_some, htext]
      simp only [List.append_assoc]
  | scalar data =>
    cases data with
    | boolean flag =>
      refine exists_printed hkey (.number (signedNumber (if flag then 1 else 0)))
        (signedNumber_wellFormed _) ?_ fun _ => rfl
      cases flag <;> decide
    | array text dataBuffLen =>
      exact exists_printed hkey (.string text) (rawString_of_plain hdata) rfl fun _ => rfl
    | string text dataBuffLen =>
      exact exists_printed hkey (.string text) (rawString_of_plain hdata) rfl fun _ => rfl
    | float bits =>
      have hvalue : scalarJson (.float bits) = some (.number (fixedNumber binary32 bits.toNat)) :=
        if_pos hjson
      exact exists_scalar hkey hvalue (fixedNumber_wellFormed _ _) rfl fun _ => hvalue
    | double bits =>
      have hvalue : scalarJson (.double bits) = some (.number (fixedNumber binary64 bits.toNat)) :=
        if_pos hjson
      exact exists_scalar hkey hvalue (fixedNumber_wellFormed _ _) rfl fun _ => hvalue
    | int32 value => exact exists_scalar hkey rfl (signedNumber_wellFormed _) rfl fun _ => rfl
    | int16 value => exact exists_scalar hkey rfl (signedNumber_wellFormed _) rfl fun _ => rfl
    | int8 value => exact exists_scalar hkey rfl (signedNumber_wellFormed _) rfl fun _ => rfl
    | uint32 value => exact exists_scalar hkey rfl (signedNumber_wellFormed _) rfl fun _ => rfl
    | uint16 value => exact exists_scalar hkey rfl (signedNumber_wellFormed _) rfl fun _ => rfl
    | uint8 value => exact exists_scalar hkey rfl (signedNumber_wellFormed _) rfl fun _ => rfl

/-- What is printed for items are the members of an object, with a comma behind the last one. -/
theorem exists_itemMembers (items : List Item) (hwritable : ∀ item ∈ items, item.writable = true)
    (hplain : ∀ item ∈ items, plainItem item = true) (hjson : ∀ item ∈ items, JsonItem item) :
    ∃ members, membersWellFormed members = true ∧ ItemsRender items members ∧
      (items ≠ [] → itemTexts items = membersText members ++ [comma]) := by
  induction items with
  | nil => exact ⟨[], rfl, .nil, fun h => absurd rfl h⟩
  | cons item rest ih =>
    obtain ⟨layout, value, hmember⟩ := exists_itemMember (hwritable item (List.mem_cons_self ..))
      (hplain item (List.mem_cons_self ..)) (hjson item (List.mem_cons_self ..))
    obtain ⟨members, hwf, hrenders, htext⟩ := ih
      (fun other hmem => hwritable other (List.mem_cons_of_mem item hmem))
      (fun other hmem => hplain other (List.mem_cons_of_mem item hmem))
      (fun other hmem => hjson other (List.mem_cons_of_mem item hmem))
    refine ⟨(layout, value) :: members, ?_, .cons ⟨hmember.key, hmember.renders⟩ hrenders, ?_⟩
    · rw [membersWellFormed, hmember.spelled, hmember.wellFormed, hwf]
      rfl
    · intro _
      rw [itemTexts, List.flatMap_cons, ← itemTexts, hmember.text, membersText_cons, separator]
      cases hrenders with
      | nil => simp [itemTexts, membersText]
      | cons _ _ =>
        rw [htext (List.cons_ne_nil _ _)]
        simp

end Items

section Objects
variable {items : List Item} {method token : List UInt8}

theorem signedText_natCast (n : ℕ) : signedText (n : ℤ) = decimal n := by
  have hneg : ¬ (n : ℤ) < 0 := Int.not_lt.mpr (Int.natCast_nonneg n)
  rw [signedText, decide_eq_false hneg, Int.natAbs_natCast]
  rfl

/-- Items that can be printed as values between the braces of an object. -/
structure Printable (items : List Item) : Prop where
  writable : ∀ item ∈ items, item.writable = true
  plain : ∀ item ∈ items, plainItem item = true
  json : JsonItems items

theorem Printable.members (h : Printable items) :
    ∃ members, membersWellFormed members = true ∧ ItemsRender items members ∧
      (openBrace :: itemTexts items).dropLast ++ [closeBrace] =
        (Json.object [] members).text := by
  obtain ⟨members, hwf, hrenders, htext⟩ := exists_itemMembers items h.writable h.plain h.json.2
  refine ⟨members, hwf, hrenders, ?_⟩
  rw [htext h.json.1, ← List.cons_append, List.dropLast_concat, Json.text, List.nil_append,
    List.cons_append]

/-- What is printed for an event are the members that tell it, with these blanks in front. -/
theorem exists_eventMembers {event : PostedEvent} {before : List UInt8}
    (hbefore : before.all isBlank = true) (hplain : plainEvent event = true)
    (h : Printable (itemsOf event.eventData)) :
    ∃ members, membersWellFormed members = true ∧ EventMembers event members ∧
      before ++ (eventHead event ++ itemTexts (itemsOf event.eventData)).dropLast ++ [closeBrace] =
        membersText members := by
  rw [plainEvent, Bool.and_eq_true, Bool.and_eq_true] at hplain
  obtain ⟨⟨hname, htype⟩, -⟩ := hplain
  obtain ⟨members, hwf, hrenders, htext⟩ := h.members
  have hid : ascii "\"eventId\":\"" =
      quote :: (ascii "eventId" ++ [quote, colon, quote]) := by decide
  have htypeName : ascii "\", \"type\":\"" =
      quote :: comma :: space :: quote :: (ascii "type" ++ [quote, colon, quote]) := by decide
  have htime : ascii "\", \"timestamp\":" =
      quote :: comma :: space :: quote :: (ascii "timestamp" ++ [quote, colon]) := by decide
  have hparams : ascii ", \"params\":\x7b" =
      comma :: space :: quote :: (ascii "params" ++ [quote, colon, openBrace]) := by decide
  have hraw : ∀ text, plain text = true → rawString text = true := fun _ => rawString_of_plain
  have hspace : [space].all isBlank = true := by decide
  refine ⟨[(⟨before, ascii "eventId", [], [], []⟩, .string (shown event.eventName)),
    (⟨[space], ascii "type", [], [], []⟩, .string (shown event.type)),
    (⟨[space], ascii "timestamp", [], [], []⟩,
      .number (signedNumber (event.timestamp.toNat * 1000 : ℕ))),
    (⟨[space], ascii "params", [], [], []⟩, .object [] members)], ?_,
    ⟨_, _, _, _, _, members, rfl, rfl, rfl, rfl, rfl, hrenders⟩, ?_⟩
  · simp only [membersWellFormed, Layout.wellFormed, Json.wellFormed, hbefore, hspace, hwf,
      hraw _ hname, hraw _ htype, hraw (ascii "eventId") (by decide),
      hraw (ascii "type") (by decide),
      hraw (ascii "timestamp") (by decide), hraw (ascii "params") (by decide),
      signedNumber_wellFormed, List.all_nil, Bool.and_self]
  · have hsplit : eventHead event ++ itemTexts (itemsOf event.eventData) =
        ascii "\"eventId\":\"" ++ shown event.eventName ++ ascii "\", \"type\":\"" ++
          shown event.type ++ ascii "\", \"timestamp\":" ++
          decimal (event.timestamp.toNat * 1000) ++
          (comma :: space :: quote :: (ascii "params" ++ [quote, colon])) ++
          (openBrace :: itemTexts (itemsOf event.eventData)) := by
      rw [eventHead, hparams]
      simp only [List.append_assoc, List.cons_append, List.nil_append]
    rw [hsplit, List.dropLast_append_of_ne_nil (List.cons_ne_nil _ _), ← List.append_assoc,
      List.append_assoc _ _ [closeBrace], htext, hid, htypeName, htime]
    simp only [membersText, Layout.front, Json.text, signedNumber_text, signedText_natCast,
      List.append_assoc, List.cons_append, List.nil_append, List.append_nil, List.isEmpty_cons,
      List.isEmpty_nil, Bool.false_eq_true, if_false, if_true]

/-- A text with more members behind the client token. -/
theorem holdsObject_of_members {tail : List UInt8} {members : List (Layout × Json)}
    (more : List (Layout × Json) → Prop) (hmethod : plain method = true)
    (htoken : plain token = true)
    (hne : members ≠ []) (hwf : membersWellFormed members = true)
    (htext : space :: tail = membersText members) (hmore : more members) :
    HoldsObject method token (initText method token ++ tail ++ [closeBrace]) more := by
  have hfront : ascii "\x7b\"method\":\"" =
      openBrace :: quote :: (ascii "method" ++ [quote, colon, quote]) := by decide
  have hmiddle : ascii "\", \"clientToken\":\"" =
      quote :: comma :: space :: quote ::
        (ascii "clientToken" ++ [quote, colon, quote]) := by decide
  have hend : ascii "\", " = [quote, comma, space] := by decide
  have hspace : [space].all isBlank = true := by decide
  have hraw : ∀ text, plain text = true → rawString text = true := fun _ => rawString_of_plain
  have hempty : members.isEmpty = false := List.isEmpty_eq_false_iff.mpr hne
  refine ⟨[], ⟨[], ascii "method", [], [], []⟩, ⟨[space], ascii "clientToken", [], [], []⟩, members,
    ?_, ?_, rfl, rfl, hmore⟩
  · rw [initText, hfront, hmiddle, hend]
    simp only [Json.text, membersText, Layout.front, ← htext, hempty, List.append_assoc,
      List.cons_append, List.nil_append, List.append_nil, List.isEmpty_cons, Bool.false_eq_true,
      if_false]
  · simp only [Json.wellFormed, membersWellFormed, Layout.wellFormed, hspace, hwf, hraw _ hmethod,
      hraw _ htoken, hraw (ascii "method") (by decide), hraw (ascii "clientToken") (by decide),
      List.all_nil, Bool.and_self]

/-- What is printed for several events are the items of an array. -/
theorem exists_eventItems {count : ℕ} (hcount : 1 < count) (events : List PostedEvent)
    (hne : events ≠ []) (hplain : ∀ event ∈ events, plainEvent event = true)
    (hprint : ∀ event ∈ events, Printable (itemsOf event.eventData)) :
    ∃ items, itemsWellFormed items = true ∧
      List.Forall₂ (fun event (item : Gaps × Json) =>
        ∃ blank members, item.2 = .object blank members ∧ EventMembers event members) events items ∧
      openBrace :: eventsText count (events.map some) = itemsText items := by
  have hone : count ≠ 1 := by omega
  induction events with
  | nil => exact absurd rfl hne
  | cons event rest ih =>
    obtain ⟨members, hwf, hevent, htext⟩ := exists_eventMembers
      (show ([] : List UInt8).all isBlank = true from rfl)
      (hplain event (List.mem_cons_self ..)) (hprint event (List.mem_cons_self ..))
    rw [List.nil_append] at htext
    have hobject : (Json.object [] members).wellFormed = true := by
      rw [Json.wellFormed, hwf]
      rfl
    cases rest with
    | nil =>
      have hbraces : endBraces count true = [closeBrace] ++ [closeBrace] := by
        rw [endBraces, if_pos ⟨hcount, rfl⟩]
        decide
      refine ⟨[(⟨[], []⟩, .object [] members)], ?_, .cons ⟨[], members, rfl, hevent⟩ .nil, ?_⟩
      · rw [itemsWellFormed, hobject]
        rfl
      · rw [List.map_singleton, eventsText, eventText, eventsText, List.isEmpty_nil, hbraces,
          ← List.append_assoc, htext, itemsText, Json.text]
        simp
    | cons next rest =>
      have hbraces : endBraces count false =
          [closeBrace] ++ closeBrace :: comma :: [openBrace] := by
        rw [endBraces, if_neg (by simp), if_neg hone]
        decide
      obtain ⟨items, hitems, hrenders, hrest⟩ := ih (List.cons_ne_nil _ _)
        (fun other hmem => hplain other (List.mem_cons_of_mem event hmem))
        (fun other hmem => hprint other (List.mem_cons_of_mem event hmem))
      have hsome : items.isEmpty = false := by
        cases hrenders
        rfl
      refine ⟨(⟨[], []⟩, .object [] members) :: items, ?_,
        .cons ⟨[], members, rfl, hevent⟩ hrenders, ?_⟩
      · rw [itemsWellFormed, hobject, hitems]
        rfl
      · rw [List.map_cons, eventsText, eventText, List.isEmpty_map, List.isEmpty_cons, hbraces,
          ← List.append_assoc, htext, itemsText, hsome, ← hrest, Json.text]
        simp

end Objects

section Holds
variable {events : List PostedEvent} {token : List UInt8}

theorem plain_eventMethod (count : ℕ) : plain (eventMethod count) = true := by
  rw [eventMethod]
  split_ifs <;> decide

/-- Several events end with the brace of the last one. -/
theorem eventsText_concat {count : ℕ} (hcount : 1 < count) (hne : events ≠ []) :
    ∃ front, eventsText count (events.map some) = front ++ [closeBrace] := by
  induction events with
  | nil => exact absurd rfl hne
  | cons event rest ih =>
    rw [List.map_cons, eventsText]
    cases rest with
    | nil =>
      have hbraces : endBraces count true = [closeBrace] ++ [closeBrace] := by
        rw [endBraces, if_pos ⟨hcount, rfl⟩]
        decide
      rw [List.map_nil, List.isEmpty_nil, eventsText, eventText, hbraces, List.append_nil,
        ← List.append_assoc]
      exact ⟨_, rfl⟩
    | cons next rest =>
      obtain ⟨front, hfront⟩ := ih (List.cons_ne_nil _ _)
      rw [hfront, ← List.append_assoc]
      exact ⟨_, rfl⟩

/-- A document of events that all have items which are printed as values holds the events. -/
theorem holdsEvents_of_printable (htoken : plain token = true) (hne : events ≠ [])
    (hplain : ∀ event ∈ events, plainEvent event = true)
    (hprint : ∀ event ∈ events, Printable (itemsOf event.eventData)) :
    HoldsEvents token events (documentText token (events.map some)) := by
  have hspace : [space].all isBlank = true := by decide
  have hclose : ascii "\x7d" = [closeBrace] := by decide
  have hbracket : ascii "\x7d]" = [closeBrace, closeBracket] := by decide
  rw [HoldsEvents, documentText_eq, closeText, openText, hclose, hbracket, List.length_map]
  obtain _ | ⟨event, _ | ⟨next, rest⟩⟩ := events
  · exact absurd rfl hne
  · obtain ⟨members, hwf, hevent, htext⟩ := exists_eventMembers hspace
      (hplain event (List.mem_singleton_self event)) (hprint event (List.mem_singleton_self event))
    have hmembers : members ≠ [] := by
      obtain ⟨id, type, timestamp, params, inner, items, rfl, -⟩ := hevent
      exact List.cons_ne_nil _ _
    have hholds := holdsObject_of_members (EventsRender [event]) (plain_eventMethod 1) htoken
      hmembers hwf htext hevent
    have hbraces : endBraces 1 true = [closeBrace] := by decide
    rw [List.length_singleton, if_neg (by decide), if_neg (by decide), List.map_singleton,
      eventsText, eventText, eventsText, List.isEmpty_nil, hbraces, List.append_nil,
      List.append_nil]
    exact hholds
  · obtain ⟨items, hwf, hrenders, htext⟩ := exists_eventItems
      (show 1 < (event :: next :: rest).length by simp) (event :: next :: rest)
        (List.cons_ne_nil _ _)
      hplain hprint
    have hmany : 1 < (event :: next :: rest).length := by simp
    obtain ⟨front, hfront⟩ := eventsText_concat hmany (List.cons_ne_nil event (next :: rest))
    have hopen : ascii "\"events\":[\x7b" = ascii "\"events\":[" ++ [openBrace] := by decide
    have hname : ascii "\"events\":[" =
        quote :: (ascii "events" ++ [quote, colon, openBracket]) := by
      decide
    have hmembers : membersWellFormed
        [(⟨[space], ascii "events", [], [], []⟩, .array [] items)] = true := by
      have hraw : rawString (ascii "events") = true := rawString_of_plain (by decide)
      simp only [membersWellFormed, Layout.wellFormed, Json.wellFormed, hspace, hwf, hraw,
        List.all_nil, Bool.and_self]
    have htail : space :: (ascii "\"events\":[" ++ (openBrace :: (front ++ [closeBrace])) ++
          [closeBracket]) =
        membersText [(⟨[space], ascii "events", [], [], []⟩, .array [] items)] := by
      rw [← hfront, htext, hname]
      simp [membersText, Layout.front, Json.text]
    have hholds := holdsObject_of_members (EventsRender (event :: next :: rest))
      (plain_eventMethod (event :: next :: rest).length) htoken
        (List.cons_ne_nil _ _) hmembers htail
      ⟨_, _, items, rfl, rfl, hrenders⟩
    rw [if_pos hmany, if_pos hmany, hfront, ← List.append_assoc _ front,
      List.dropLast_concat, hopen]
    simp only [List.append_assoc, List.cons_append, List.nil_append] at hholds ⊢
    exact hholds

/-- A reply with outputs that are printed as values holds them. -/
theorem holdsReply_of_printable {code : Int32} {statusMsg : CString} {output : List Item}
    (htoken : plain token = true) (hstatus : plain statusMsg.val = true) (h : Printable output) :
    HoldsReply token code statusMsg output (replyText token code statusMsg output) := by
  obtain ⟨members, hwf, hrenders, htext⟩ := h.members
  have hspace : [space].all isBlank = true := by decide
  have hcode : ascii "\"code\":" = quote :: (ascii "code" ++ [quote, colon]) := by decide
  have hstatusName : ascii ", \"status\":\"" =
      comma :: space :: quote :: (ascii "status" ++ [quote, colon, quote]) := by decide
  have hresponse : ascii "\", \"response\":\x7b" =
      quote :: comma :: space :: quote ::
        (ascii "response" ++ [quote, colon, openBrace]) := by decide
  have hclose : ascii "\x7d\x7d" = [closeBrace] ++ [closeBrace] := by decide
  have hraw : ∀ text, plain text = true → rawString text = true := fun _ => rawString_of_plain
  have hmembers : membersWellFormed
      [(⟨[space], ascii "code", [], [], []⟩, .number (signedNumber code.toInt)),
        (⟨[space], ascii "status", [], [], []⟩, .string statusMsg),
        (⟨[space], ascii "response", [], [], []⟩, .object [] members)] = true := by
    simp only [membersWellFormed, Layout.wellFormed, Json.wellFormed, hspace, hwf, hraw _ hstatus,
      hraw (ascii "code") (by decide), hraw (ascii "status") (by decide),
      hraw (ascii "response") (by decide), signedNumber_wellFormed, List.all_nil, Bool.and_self]
  have hsplit : replyHead code statusMsg ++ itemTexts output =
      quote :: (ascii "code" ++ [quote, colon]) ++ signedText code.toInt ++
        (comma :: space :: quote :: (ascii "status" ++ [quote, colon, quote])) ++ statusMsg.val ++
        (quote :: comma :: space :: quote :: (ascii "response" ++ [quote, colon])) ++
        (openBrace :: itemTexts output) := by
    rw [replyHead, hcode, hstatusName, hresponse]
    simp only [List.append_assoc, List.cons_append, List.nil_append]
  have htail : space :: ((replyHead code statusMsg ++ itemTexts output).dropLast ++ [closeBrace]) =
      membersText [(⟨[space], ascii "code", [], [], []⟩, .number (signedNumber code.toInt)),
        (⟨[space], ascii "status", [], [], []⟩, .string statusMsg),
        (⟨[space], ascii "response", [], [], []⟩, .object [] members)] := by
    rw [hsplit, List.dropLast_append_of_ne_nil (List.cons_ne_nil _ _),
      List.append_assoc _ _ [closeBrace], htext]
    simp only [membersText, Layout.front, Json.text, signedNumber_text, List.append_assoc,
      List.cons_append, List.nil_append, List.append_nil, List.isEmpty_cons, List.isEmpty_nil,
      Bool.false_eq_true, if_false, if_true]
  have hholds := holdsObject_of_members (ReplyRender code statusMsg output)
    (show plain (ascii "action_reply") = true by decide) htoken
    (List.cons_ne_nil _ _) hmembers htail
    ⟨_, _, _, _, members, rfl, rfl, rfl, rfl, hrenders⟩
  have hne : replyHead code statusMsg ++ itemTexts output ≠ [] := by
    rw [hsplit]
    simp
  rw [HoldsReply, replyText, replyOpen, hclose, List.append_assoc (initText _ _),
    List.dropLast_append_of_ne_nil hne, ← List.append_assoc, List.append_assoc (initText _ _)]
  exact hholds

end Holds

section Closed
variable {item : Item} {items : List Item} {event : PostedEvent} {token method : List UInt8}

/-- What is in front of the opening brace of the items of an event, without the colon. -/
def eventFront (event : PostedEvent) : List UInt8 :=
  ascii "\"eventId\":\"" ++ shown event.eventName ++ ascii "\", \"type\":\"" ++ shown event.type ++
    ascii "\", \"timestamp\":" ++ decimal (event.timestamp.toNat * 1000) ++ ascii ", \"params\""

theorem eventHead_eq (event : PostedEvent) :
    eventHead event = eventFront event ++ [colon, openBrace] := by
  have hparams : ascii ", \"params\":\x7b" = ascii ", \"params\"" ++ [colon, openBrace] := by decide
  rw [eventHead, hparams, eventFront]
  simp only [List.append_assoc]

/-- What is in front of the opening brace of the outputs, without the colon. -/
def replyFront (code : Int32) (statusMsg : CString) : List UInt8 :=
  ascii "\"code\":" ++ signedText code.toInt ++ ascii ", \"status\":\"" ++ statusMsg ++
    ascii "\", \"response\""

theorem replyHead_eq (code : Int32) (statusMsg : CString) :
    replyHead code statusMsg = replyFront code statusMsg ++ [colon, openBrace] := by
  have hresponse : ascii "\", \"response\":\x7b" = ascii "\", \"response\"" ++
      [colon, openBrace] := by
    decide
  rw [replyHead, hresponse, replyFront]
  simp only [List.append_assoc]

theorem quotes_of_plain {text : List UInt8} (h : plain text = true) : Quotes false text := by
  rw [plain, List.all_eq_true] at h
  have hnot : ∀ c ∈ text, c ≠ quote ∧ c ≠ backslash := by
    intro c hmem
    have hc := h c hmem
    simp only [Bool.and_eq_true, bne_iff_ne] at hc
    exact ⟨hc.1.2, hc.2⟩
  have hcount : text.count quote = 0 := List.count_eq_zero.mpr fun hmem => (hnot _ hmem).1 rfl
  exact ⟨fun hmem => (hnot _ hmem).2 rfl, by rw [hcount]; rfl⟩

theorem plain_decimal (n : ℕ) : plain (decimal n) = true := by
  rw [plain, List.all_eq_true]
  intro c hmem
  have hdigit := isDigit_of_mem_decimal n c hmem
  have hnot : ∀ mark : UInt8, isDigit mark = false → c ≠ mark := by
    rintro mark hmark rfl
    exact absurd hdigit (by rw [hmark]; decide)
  have hspace : 0x20 ≤ c := by
    rw [isDigit, Bool.and_eq_true, decide_eq_true_eq] at hdigit
    exact UInt8.le_trans (show (0x20 : UInt8) ≤ 0x30 by decide) hdigit.1
  rw [decide_eq_true hspace, bne_iff_ne.mpr (hnot quote rfl), bne_iff_ne.mpr (hnot backslash rfl)]
  rfl

theorem plain_append {front back : List UInt8} (hfront : plain front = true)
    (hback : plain back = true) : plain (front ++ back) = true := by
  rw [plain, List.all_append, Bool.and_eq_true]
  exact ⟨hfront, hback⟩

theorem plain_signedText (value : ℤ) : plain (signedText value) = true := by
  apply plain_append _ (plain_decimal _)
  rw [sign]
  split_ifs <;> decide

/-- A document up to the comma behind the client token. -/
def initFront (method token : List UInt8) : List UInt8 :=
  ascii "\x7b\"method\":\"" ++ method ++ ascii "\", \"clientToken\":\"" ++ token ++ [quote]

theorem initText_eq (method token : List UInt8) :
    initText method token = initFront method token ++ [comma, space] := by
  have hend : ascii "\", " = [quote] ++ [comma, space] := by decide
  rw [initText, hend, initFront]
  simp only [List.append_assoc]

theorem closed_initFront (hmethod : plain method = true) (htoken : plain token = true) :
    Closed (initFront method token) := by
  have hfront : Quotes true (ascii "\x7b\"method\":\"") := by decide
  have hmiddle : Quotes false (ascii "\", \"clientToken\":\"") := by decide
  have hend : Quotes true [quote] := by decide
  exact Quotes.closed ((((hfront.append (quotes_of_plain hmethod)).append hmiddle).append
    (quotes_of_plain htoken)).append hend)

theorem closed_initText (hmethod : plain method = true) (htoken : plain token = true) :
    Closed (initText method token) := by
  have hend : Quotes false [comma, space] := by decide
  rw [initText_eq]
  exact (closed_initFront hmethod htoken).append hend.closed

theorem closed_eventFront (hplain : plainEvent event = true) : Closed (eventFront event) := by
  rw [plainEvent, Bool.and_eq_true, Bool.and_eq_true] at hplain
  obtain ⟨⟨hname, htype⟩, -⟩ := hplain
  have hid : Quotes true (ascii "\"eventId\":\"") := by decide
  have htypeName : Quotes false (ascii "\", \"type\":\"") := by decide
  have htime : Quotes true (ascii "\", \"timestamp\":") := by decide
  have hparams : Quotes false (ascii ", \"params\"") := by decide
  exact Quotes.closed ((((((hid.append (quotes_of_plain hname)).append htypeName).append
    (quotes_of_plain htype)).append htime).append (quotes_of_plain (plain_decimal _))).append
      hparams)

theorem closed_replyFront (code : Int32) {statusMsg : CString}
    (hstatus : plain statusMsg.val = true) :
    Closed (replyFront code statusMsg) := by
  have hcode : Quotes false (ascii "\"code\":") := by decide
  have hstatusName : Quotes true (ascii ", \"status\":\"") := by decide
  have hresponse : Quotes true (ascii "\", \"response\"") := by decide
  exact Quotes.closed ((((hcode.append (quotes_of_plain (plain_signedText _))).append
    hstatusName).append (quotes_of_plain hstatus)).append hresponse)

/-- What is printed for items ends outside of strings. -/
theorem closed_itemTexts (hwritable : ∀ item ∈ items, item.writable = true)
    (hplain : ∀ item ∈ items, plainItem item = true) (hjson : ∀ item ∈ items, JsonItem item) :
    Closed (itemTexts items) := by
  induction items with
  | nil => exact fun _ _ => rfl
  | cons item rest ih =>
    obtain ⟨layout, value, hmember⟩ := exists_itemMember (hwritable item (List.mem_cons_self ..))
      (hplain item (List.mem_cons_self ..)) (hjson item (List.mem_cons_self ..))
    have hrest := ih (fun other hmem => hwritable other (List.mem_cons_of_mem item hmem))
      (fun other hmem => hplain other (List.mem_cons_of_mem item hmem))
      (fun other hmem => hjson other (List.mem_cons_of_mem item hmem))
    have hafter : layout.afterValue.all isBlank = true :=
      (Bool.and_eq_true_iff.mp hmember.spelled).2
    have hcomma : Quotes false [comma] := by decide
    rw [itemTexts, List.flatMap_cons, hmember.text]
    exact (Closed.append (Closed.append (Closed.append (closed_front hmember.spelled)
      (closed_of_wellFormed hmember.wellFormed)) (closed_blank hafter)) hcomma.closed).append hrest

theorem itemTexts_concat (hne : items ≠ []) : ∃ front, itemTexts items = front ++ [comma] := by
  induction items with
  | nil => exact absurd rfl hne
  | cons item rest ih =>
    rw [itemTexts, List.flatMap_cons, ← itemTexts]
    cases rest with
    | nil =>
      rw [itemText, itemTexts, List.flatMap_nil, List.append_nil, ← List.append_assoc]
      exact ⟨_, rfl⟩
    | cons next rest =>
      obtain ⟨front, hfront⟩ := ih (List.cons_ne_nil _ _)
      rw [hfront, ← List.append_assoc]
      exact ⟨_, rfl⟩

theorem plainItems_of_plainEvent (h : plainEvent event = true) :
    ∀ item ∈ itemsOf event.eventData, plainItem item = true := by
  rw [plainEvent, Bool.and_eq_true] at h
  exact List.all_eq_true.mp h.2

/-- The items of an event are put into the buffer, and what is printed for them are JSON values. -/
structure Sound (event : PostedEvent) : Prop where
  plain : plainEvent event = true
  writable : ∀ item ∈ itemsOf event.eventData, item.writable = true
  json : ∀ item ∈ itemsOf event.eventData, JsonItem item

theorem closed_eventText (count : ℕ) (last : Bool) (h : Sound event) :
    Closed (eventText count event last) := by
  have hplain := plainItems_of_plainEvent h.plain
  have hbraces : Closed (endBraces count last) := by
    have hone : Quotes false (ascii "\x7d") := by decide
    have htwo : Quotes false (ascii "\x7d\x7d") := by decide
    have hfour : Quotes false (ascii "\x7d\x7d,\x7b") := by decide
    rw [endBraces]
    split_ifs
    · exact htwo.closed
    · exact hone.closed
    · exact hfour.closed
  have hopen : Quotes false [colon, openBrace] := by decide
  have htext : Closed (eventHead event ++ itemTexts (itemsOf event.eventData)) := by
    rw [eventHead_eq]
    exact ((closed_eventFront h.plain).append hopen.closed).append
      (closed_itemTexts h.writable hplain h.json)
  refine Closed.append ?_ hbraces
  by_cases hne : itemsOf event.eventData = []
  · have hsplit : eventHead event ++ itemTexts (itemsOf event.eventData) =
        (eventFront event ++ [colon]) ++ [openBrace] := by
      rw [hne, itemTexts, List.flatMap_nil, List.append_nil, eventHead_eq, List.append_assoc]
      rfl
    rw [hsplit] at htext ⊢
    rw [List.dropLast_concat]
    exact htext.of_concat (by decide)
  · obtain ⟨front, hfront⟩ := itemTexts_concat hne
    rw [hfront, ← List.append_assoc] at htext ⊢
    rw [List.dropLast_concat]
    exact htext.of_concat (by decide)

/-- The events in front of one of them end outside of strings. -/
theorem eventsText_split (count : ℕ) (front back : List PostedEvent)
    (h : ∀ event ∈ front, Sound event) :
    ∃ text, Closed text ∧ eventsText count ((front ++ event :: back).map some) =
      text ++ (eventText count event (back.map some).isEmpty ++ eventsText count
        (back.map some)) := by
  induction front with
  | nil => exact ⟨[], fun _ _ => rfl, rfl⟩
  | cons first front ih =>
    obtain ⟨text, hclosed, htext⟩ := ih fun other hmem => h other (List.mem_cons_of_mem first hmem)
    rw [List.cons_append, List.map_cons, eventsText, htext, ← List.append_assoc]
    exact ⟨_, (closed_eventText count _ (h first (List.mem_cons_self ..))).append hclosed, rfl⟩

/-- What is printed for an event without items closes a brace behind a colon. -/
theorem eventText_itemless (count : ℕ) (last : Bool) (h : itemsOf event.eventData = []) :
    ∃ back, (1 < count → back ≠ []) ∧
      eventText count event last = eventFront event ++ colon :: closeBrace :: back := by
  have hsplit : eventHead event ++ itemTexts (itemsOf event.eventData) =
      (eventFront event ++ [colon]) ++ [openBrace] := by
    rw [h, itemTexts, List.flatMap_nil, List.append_nil, eventHead_eq, List.append_assoc]
    rfl
  have hone : ascii "\x7d" = [closeBrace] := by decide
  have htwo : ascii "\x7d\x7d" = closeBrace :: [closeBrace] := by decide
  have hfour : ascii "\x7d\x7d,\x7b" = closeBrace :: [closeBrace, comma, openBrace] := by decide
  rw [eventText, hsplit, List.dropLast_concat, endBraces, List.append_assoc]
  split_ifs with hlast hsingle
  · exact ⟨[closeBrace], fun _ => List.cons_ne_nil _ _, by rw [htwo]; rfl⟩
  · exact ⟨[], fun hcount => by omega, by rw [hone]; rfl⟩
  · exact ⟨[closeBrace, comma, openBrace], fun _ => List.cons_ne_nil _ _, by rw [hfour]; rfl⟩

theorem closeText_append (count : ℕ) (front : List UInt8) {back : List UInt8}
    (hne : 1 < count → back ≠ []) : ∃ back', closeText count (front ++ back) = front ++ back' := by
  rw [closeText]
  split_ifs with hcount
  · rw [List.dropLast_append_of_ne_nil (hne hcount), List.append_assoc, List.append_assoc]
    exact ⟨_, rfl⟩
  · rw [List.append_assoc]
    exact ⟨_, rfl⟩

/-- A document of no events, or with an event without items, is the text of no value. -/
theorem documentText_ne {events : List PostedEvent} (htoken : plain token = true)
    (hsound : ∀ event ∈ events, Sound event)
    (hnone : events = [] ∨ ∃ event ∈ events, itemsOf event.eventData = []) {value : Json}
    (hwf : value.wellFormed = true) : documentText token (events.map some) ≠ value.text := by
  rw [documentText_eq, List.length_map]
  rcases hnone with rfl | ⟨event, hmem, hnone⟩
  · have hspace : [space].all isBlank = true := by decide
    have hclose : ascii "\x7d" = [closeBrace] := by decide
    have htext : closeText 0 (openText token 0 ++ eventsText 0 []) =
        initFront (eventMethod 0) token ++ comma :: ([space] ++ closeBrace :: []) := by
      rw [closeText, openText, if_neg (by decide), if_neg (by decide), initText_eq,
        eventsText, hclose]
      simp only [List.append_assoc, List.cons_append, List.nil_append]
    rw [List.length_nil, List.map_nil, htext]
    exact dangling_ne_text (closed_initFront (plain_eventMethod 0) htoken) (.inr rfl) hspace hwf
  · obtain ⟨front, back, rfl⟩ := List.append_of_mem hmem
    generalize (front ++ event :: back).length = count
    obtain ⟨text, hclosed, hsplit⟩ := eventsText_split count front back fun other hother =>
      hsound other (List.mem_append_left _ hother)
    obtain ⟨rest, hrest, hevent⟩ := eventText_itemless count (back.map some).isEmpty hnone
    have hopen : Closed (openText token count) := by
      have hevents : Quotes false (ascii "\"events\":[\x7b") := by decide
      refine Closed.append (closed_initText (plain_eventMethod count) htoken) ?_
      split_ifs
      · exact hevents.closed
      · exact fun _ _ => rfl
    have hfront : Closed (openText token count ++ text ++ eventFront event) :=
      (hopen.append hclosed).append (closed_eventFront (hsound event hmem).plain)
    have htext : openText token count ++ eventsText count ((front ++ event :: back).map some) =
        (openText token count ++ text ++ eventFront event ++ [colon, closeBrace]) ++
          (rest ++ eventsText count (back.map some)) := by
      rw [hsplit, hevent]
      simp only [List.append_assoc, List.cons_append, List.nil_append]
    have hmore : 1 < count → rest ++ eventsText count (back.map some) ≠ [] := by
      intro hcount hnil
      exact hrest hcount (List.append_eq_nil_iff.mp hnil).1
    obtain ⟨back', hback⟩ := closeText_append count
      (openText token count ++ text ++ eventFront event ++ [colon, closeBrace]) hmore
    have hend : openText token count ++ text ++ eventFront event ++ [colon, closeBrace] ++ back' =
        openText token count ++ text ++ eventFront event ++ colon ::
          ([] ++ closeBrace :: back') := by
      simp only [List.append_assoc, List.cons_append, List.nil_append]
    rw [htext, hback, hend]
    exact dangling_ne_text hfront (.inl rfl) rfl hwf

/-- A reply without outputs is the text of no value. -/
theorem replyText_ne {code : Int32} {statusMsg : CString} (htoken : plain token = true)
    (hstatus : plain statusMsg.val = true) {value : Json} (hwf : value.wellFormed = true) :
    replyText token code statusMsg [] ≠ value.text := by
  have hfront : Closed (initText (ascii "action_reply") token ++ replyFront code statusMsg) :=
    (closed_initText (by decide) htoken).append (closed_replyFront code hstatus)
  have hclose : ascii "\x7d\x7d" = [closeBrace, closeBrace] := by decide
  have hopen : replyOpen token code statusMsg ++ itemTexts [] =
      (initText (ascii "action_reply") token ++ replyFront code statusMsg ++ [colon]) ++
        [openBrace] := by
    rw [replyOpen, replyHead_eq, itemTexts, List.flatMap_nil, List.append_nil]
    simp only [List.append_assoc, List.cons_append, List.nil_append]
  have htext : replyText token code statusMsg [] =
      (initText (ascii "action_reply") token ++ replyFront code statusMsg) ++
        colon :: ([] ++ closeBrace :: [closeBrace]) := by
    rw [replyText, hopen, List.dropLast_concat, hclose, List.append_assoc _ [colon]]
    rfl
  rw [htext]
  exact dangling_ne_text hfront (.inl rfl) rfl hwf

end Closed

section Right

/-- An entry for the reply can be put into the list. -/
def EntryMade (call : EventCall) (client : EventClient) : Prop :=
  client.eventList.length < maxEventWaitReply ∧ call.replyOk = true ∧ call.nodeOk = true

/-- The texts that are put between quotes need no escapes. -/
def PlainTexts (token : List UInt8) (events : List PostedEvent) : Prop :=
  plain token = true ∧ ∀ event ∈ events, plainEvent event = true

/-- No write leaves the buffer, and what is said to be a success is an object with the events. -/
def EventsRight (call : EventCall) (client : EventClient) : Prop :=
  (iotConstructEventJson call client).2.1.reach ≤ call.sizeOfBuffer ∧
    ((iotConstructEventJson call client).1 = .json .success →
      ∃ events, call.pEventArry = some (events.map some) ∧
        (PlainTexts client.template.clientToken events →
          HoldsEvents client.template.clientToken events
            (iotConstructEventJson call client).2.1.text))

/-- When there is an entry, no head of an event is written beyond the end, and, if there is room for
the document, there are events, with items in each of them that are printed as JSON values. -/
def EventsSound (call : EventCall) (client : EventClient) : Prop :=
  call.jsonBuffer = true → EntryMade call client → call.sizeOfBuffer < 2 ^ 31 →
    ∀ events, call.pEventArry = some events →
      documentOverruns call.sizeOfBuffer client.template.clientToken events = false ∧
        (documentFits call.sizeOfBuffer client.template.clientToken events = true →
          ∀ given, events = given.map some → PlainTexts client.template.clientToken given →
            given ≠ [] ∧ ∀ event ∈ given, JsonItems (itemsOf event.eventData))

def ReplyRight (reply : ActionReply) : Prop :=
  (iotConstructActionJson reply).2.reach ≤ reply.sizeOfBuffer ∧
    ((iotConstructActionJson reply).1 = .success →
      ∃ token output, reply.clientToken = some token ∧ reply.action = some (some output) ∧
        (plain token.val = true → plain reply.statusMsg.val = true →
          (∀ item ∈ output, plainItem item = true) →
          HoldsReply token reply.code reply.statusMsg output (iotConstructActionJson reply).2.text))

/-- If there is room for the reply, there are outputs, and they are printed as JSON values. -/
def ReplySound (reply : ActionReply) : Prop :=
  reply.jsonBuffer = true → reply.sizeOfBuffer < 2 ^ 31 →
    ∀ token output, reply.clientToken = some token → reply.action = some (some output) →
      replyFits reply.sizeOfBuffer token reply.code reply.statusMsg output = true →
      plain token.val = true → plain reply.statusMsg.val = true →
      (∀ item ∈ output, plainItem item = true) → JsonItems output

variable {item : Item} {items : List Item} {event : PostedEvent} {call : EventCall}
  {client : EventClient} {reply : ActionReply} {token : List UInt8}

theorem jsonItem_of_renders {layout : Layout} {value : Json} (hlayout : layout.wellFormed = true)
    (hvalue : value.wellFormed = true) (h : ItemRenders item layout value) : JsonItem item := by
  obtain ⟨key, data⟩ := item
  cases data with
  | null => trivial
  | unknown => trivial
  | object text =>
    simp only [Layout.wellFormed, Bool.and_eq_true] at hlayout
    exact ⟨layout.beforeValue, value, layout.afterValue, hlayout.1.2, hlayout.2, hvalue, h⟩
  | scalar data =>
    cases data with
    | float bits =>
      have h : scalarJson (.float bits) = some value := h
      rw [scalarJson] at h
      split at h
      · next hfinite => exact hfinite
      · cases h
    | double bits =>
      have h : scalarJson (.double bits) = some value := h
      rw [scalarJson] at h
      split at h
      · next hfinite => exact hfinite
      · cases h
    | _ => rfl

theorem jsonItems_of_render {members : List (Layout × Json)}
    (hwf : membersWellFormed members = true)
    (h : ItemsRender items members) : ∀ item ∈ items, JsonItem item := by
  induction h with
  | nil => exact fun item hmem => absurd hmem List.not_mem_nil
  | @cons item member items members hmember _ ih =>
    obtain ⟨layout, value⟩ := member
    rw [membersWellFormed, Bool.and_eq_true, Bool.and_eq_true] at hwf
    exact List.forall_mem_cons.mpr ⟨jsonItem_of_renders hwf.1.1 hwf.1.2 hmember.2, ih hwf.2⟩

theorem jsonItems_of_event {members : List (Layout × Json)} (hwf : membersWellFormed members = true)
    (h : EventMembers event members) : ∀ item ∈ itemsOf event.eventData, JsonItem item := by
  obtain ⟨id, type, timestamp, params, inner, items, rfl, -, -, -, -, hitems⟩ := h
  simp only [membersWellFormed, Json.wellFormed, Bool.and_eq_true] at hwf
  exact jsonItems_of_render hwf.2.2.2.1.2.2 hitems

theorem jsonItems_of_array {events : List PostedEvent} {items : List (Gaps × Json)}
    (hwf : itemsWellFormed items = true)
    (h : List.Forall₂ (fun event (item : Gaps × Json) =>
      ∃ blank members, item.2 = .object blank members ∧ EventMembers event members) events items) :
    ∀ event ∈ events, ∀ item ∈ itemsOf event.eventData, JsonItem item := by
  induction h with
  | nil => exact fun event hmem => absurd hmem List.not_mem_nil
  | @cons event item events items hevent _ ih =>
    obtain ⟨gaps, value⟩ := item
    obtain ⟨blank, members, hvalue, hevent⟩ := hevent
    obtain rfl : value = .object blank members := hvalue
    simp only [itemsWellFormed, Json.wellFormed, Bool.and_eq_true] at hwf
    exact List.forall_mem_cons.mpr ⟨jsonItems_of_event hwf.1.1.2.2 hevent, ih hwf.2⟩

/-- The items of the events that an object holds are printed as JSON values. -/
theorem jsonItems_of_holdsEvents {events : List PostedEvent} {text : List UInt8}
    (h : HoldsEvents token events text) :
    ∀ event ∈ events, ∀ item ∈ itemsOf event.eventData, JsonItem item := by
  obtain ⟨blank, methodLayout, tokenLayout, members, -, hwf, -, -, hrenders⟩ := h
  simp only [Json.wellFormed, membersWellFormed, Bool.and_eq_true] at hwf
  have hmembers := hwf.2.2.2
  cases events with
  | nil => exact fun event hmem => absurd hmem List.not_mem_nil
  | cons first rest =>
    cases rest with
    | nil =>
      intro other hmem
      obtain rfl := List.mem_singleton.mp hmem
      exact jsonItems_of_event hmembers hrenders
    | cons second rest =>
      obtain ⟨layout, blank, items, rfl, -, hrenders⟩ := hrenders
      simp only [membersWellFormed, Json.wellFormed, Bool.and_eq_true] at hmembers
      exact jsonItems_of_array hmembers.1.2.2 hrenders

theorem writable_of_itemsFit {size length : ℕ} (h : itemsFit size length items = true) :
    ∀ item ∈ items, item.writable = true := by
  induction items generalizing length with
  | nil => exact fun item hmem => absurd hmem List.not_mem_nil
  | cons item rest ih =>
    rw [itemsFit, Bool.and_eq_true, Bool.and_eq_true] at h
    exact List.forall_mem_cons.mpr ⟨h.1.1, ih h.2⟩

/-- Events that there is room for are given, with items that are put into the buffer. -/
theorem given_of_eventsFit {size count length : ℕ} {events : List (Option PostedEvent)}
    (h : eventsFit size count length events = true) :
    ∃ given : List PostedEvent, events = given.map some ∧
      ∀ event ∈ given, ∀ item ∈ itemsOf event.eventData, item.writable = true := by
  induction events generalizing length with
  | nil => exact ⟨[], rfl, fun event hmem => absurd hmem List.not_mem_nil⟩
  | cons event rest ih =>
    cases event with
    | none => exact absurd h Bool.false_ne_true
    | some event =>
      rw [eventsFit, Bool.and_eq_true, eventFits] at h
      simp only [Bool.and_eq_true] at h
      obtain ⟨given, rfl, hgiven⟩ := ih h.2
      exact ⟨event :: given, rfl,
        List.forall_mem_cons.mpr ⟨writable_of_itemsFit h.1.1.2, hgiven⟩⟩

/-- What the construction comes to when the pointers are given and there is an entry. -/
theorem iotConstructEventJson_made {events : List (Option PostedEvent)}
    (hbuffer : call.jsonBuffer = true)
    (hmade : EntryMade call client) (hevents : call.pEventArry = some events) :
    ∃ client', iotConstructEventJson call client =
      (.json (eventDocument call.sizeOfBuffer client.template.clientToken events).1,
        (eventDocument call.sizeOfBuffer client.template.clientToken events).2, client') := by
  obtain ⟨hfew, hreply, hnode⟩ := hmade
  have hlist : ¬ maxEventWaitReply ≤ client.eventList.length := Nat.not_le.mpr hfew
  rw [iotConstructEventJson, hbuffer, hevents, createEventAddToList, if_neg hlist, hreply, hnode]
  exact ⟨_, rfl⟩

/-- Otherwise nothing is written, and it fails. -/
theorem iotConstructEventJson_failed
    (h : ¬ (call.jsonBuffer = true ∧ EntryMade call client ∧ call.pEventArry ≠ none)) :
    (iotConstructEventJson call client).1 ≠ .json .success ∧
      (iotConstructEventJson call client).2.1 = ⟨[], 0⟩ := by
  rw [iotConstructEventJson]
  cases hbuffer : call.jsonBuffer with
  | false => exact ⟨fun h => JsonCode.noConfusion (EventCode.json.inj h), rfl⟩
  | true =>
    cases hevents : call.pEventArry with
    | none => exact ⟨fun h => JsonCode.noConfusion (EventCode.json.inj h), rfl⟩
    | some events =>
      have hmade : ¬ EntryMade call client := fun hmade =>
        h ⟨hbuffer, hmade, by rw [hevents]; exact Option.some_ne_none events⟩
      have hnone : (createEventAddToList call client).1 = none := by
        rw [createEventAddToList]
        dsimp only
        split_ifs with hfull hreply hnode
        · rfl
        · rfl
        · rfl
        · exact absurd ⟨Nat.not_le.mp hfull, by simpa using hreply, by simpa using hnode⟩ hmade
      have hpair : createEventAddToList call client =
          (none, (createEventAddToList call client).2) :=
        Prod.ext hnone rfl
      rw [hpair]
      exact ⟨EventCode.noConfusion, rfl⟩

/-- A document that holds its events has some, with items that are printed as JSON values. -/
theorem jsonItems_of_document {size length : ℕ} {given : List PostedEvent}
    (hfits : eventsFit size (given.map some).length length (given.map some) = true)
    (hplain : PlainTexts token given)
    (hholds : HoldsEvents token given (documentText token (given.map some))) :
    given ≠ [] ∧ ∀ event ∈ given, JsonItems (itemsOf event.eventData) := by
  have hjson := jsonItems_of_holdsEvents hholds
  obtain ⟨given', hgiven, hwritable⟩ := given_of_eventsFit hfits
  obtain rfl : given = given' :=
    List.map_injective_iff.mpr (Option.some_injective _) hgiven
  have hsound : ∀ event ∈ given, Sound event := fun event hmem =>
    ⟨hplain.2 event hmem, hwritable event hmem, hjson event hmem⟩
  obtain ⟨blank, methodLayout, tokenLayout, members, htext, hwf, -⟩ := hholds
  have hsome : ¬ (given = [] ∨ ∃ event ∈ given, itemsOf event.eventData = []) := fun hnone =>
    documentText_ne hplain.1 hsound hnone hwf htext
  rw [not_or] at hsome
  exact ⟨hsome.1, fun event hmem => ⟨fun hnone => hsome.2 ⟨event, hmem, hnone⟩, hjson event hmem⟩⟩

/-- The events come out right exactly if, when there is an entry, the buffer is not overrun, and
documents that there is room for have events with items that are printed as JSON values. -/
theorem eventsRight_iff (call : EventCall) (client : EventClient)
    (hsize : call.sizeOfBuffer < 2 ^ 32) :
    EventsRight call client ↔ EventsSound call client := by
  by_cases hmade : call.jsonBuffer = true ∧ EntryMade call client ∧ call.pEventArry ≠ none
  · obtain ⟨hbuffer, hmade, hgiven⟩ := hmade
    obtain ⟨events, hevents⟩ := Option.ne_none_iff_exists'.mp hgiven
    obtain ⟨client', heq⟩ := iotConstructEventJson_made hbuffer hmade hevents
    rw [EventsRight, heq]
    dsimp only
    by_cases hint : call.sizeOfBuffer < 2 ^ 31
    · cases hover : documentOverruns call.sizeOfBuffer client.template.clientToken events with
      | true =>
        have hbeyond := (eventDocument_overruns hint hover).beyond
        refine iff_of_false (fun h => absurd h.1 (Nat.not_le.mpr hbeyond)) fun h => ?_
        rw [(h hbuffer hmade hint events hevents).1] at hover
        cases hover
      | false =>
        have hputs := eventDocument_puts hint hover
        have hreach := hputs.reach
        rw [max_self] at hreach
        constructor
        · rintro ⟨-, hholds⟩ - - - events' hevents'
          obtain rfl : events = events' := Option.some.inj (hevents.symm.trans hevents')
          refine ⟨hover, fun hfits given hgiven hplain => ?_⟩
          obtain ⟨hsuccess, htext⟩ := hputs.done hfits
          obtain ⟨given', hgiven', hholds⟩ := hholds (congrArg EventCode.json hsuccess)
          obtain rfl : given = given' := List.map_injective_iff.mpr (Option.some_injective _)
            (hgiven.symm.trans (Option.some.inj (hevents.symm.trans hgiven')))
          have hholds := hholds hplain
          rw [documentFits, Bool.and_eq_true, hgiven] at hfits
          rw [htext, hgiven] at hholds
          exact jsonItems_of_document hfits.1 hplain hholds
        · intro hsound
          refine ⟨hreach, fun hsuccess => ?_⟩
          have hfits : documentFits call.sizeOfBuffer client.template.clientToken events =
              true := by
            by_contra hfull
            exact hputs.full hfull (EventCode.json.inj hsuccess)
          have hroom := hfits
          rw [documentFits, Bool.and_eq_true] at hroom
          obtain ⟨given, hgiven, hwritable⟩ := given_of_eventsFit hroom.1
          refine ⟨given, by rw [hevents, hgiven], fun hplain => ?_⟩
          obtain ⟨hne, hjson⟩ :=
            (hsound hbuffer hmade hint events hevents).2 hfits given hgiven hplain
          rw [(hputs.done hfits).2, hgiven]
          apply holdsEvents_of_printable hplain.1 hne hplain.2
          intro event hmem
          exact ⟨hwritable event hmem, plainItems_of_plainEvent (hplain.2 event hmem),
            hjson event hmem⟩
    · have hlarge := Nat.not_lt.mp hint
      rw [eventDocument_large hlarge hsize]
      refine iff_of_true ⟨Nat.le_refl _, fun h => ?_⟩ fun _ _ h => absurd h hint
      exact JsonCode.noConfusion (EventCode.json.inj h)
  · obtain ⟨hcode, hnothing⟩ := iotConstructEventJson_failed hmade
    refine iff_of_true ⟨?_, fun h => absurd h hcode⟩ ?_
    · rw [hnothing]
      exact Nat.zero_le _
    · intro hbuffer hentry _ events hevents
      exact absurd ⟨hbuffer, hentry, by rw [hevents]; exact Option.some_ne_none events⟩ hmade

/-- A reply that holds its outputs has some, and they are printed as JSON values. -/
theorem jsonItems_of_reply {code : Int32} {statusMsg : CString} (htoken : plain token = true)
    (hstatus : plain statusMsg.val = true)
    (hholds : HoldsReply token code statusMsg items (replyText token code statusMsg items)) :
    JsonItems items := by
  obtain ⟨blank, methodLayout, tokenLayout, members, htext, hwf, -, -, hrenders⟩ := hholds
  obtain ⟨codeLayout, status, response, inner, outputs, rfl, -, -, -, hrenders⟩ := hrenders
  refine ⟨?_, ?_⟩
  · rintro rfl
    exact replyText_ne htoken hstatus hwf htext
  · simp only [Json.wellFormed, membersWellFormed, Bool.and_eq_true] at hwf
    exact jsonItems_of_render hwf.2.2.2.2.2.1.2.2 hrenders

theorem replyRight_iff (reply : ActionReply) (hsize : reply.sizeOfBuffer < 2 ^ 32) :
    ReplyRight reply ↔ ReplySound reply := by
  by_cases hgiven : reply.jsonBuffer = true ∧ ∃ token output,
      reply.clientToken = some token ∧ reply.action = some output
  · obtain ⟨hbuffer, token, output, htoken, haction⟩ := hgiven
    have heq : iotConstructActionJson reply =
        replyDocument reply.sizeOfBuffer token reply.code reply.statusMsg output := by
      rw [iotConstructActionJson, hbuffer, htoken, haction]
      rfl
    rw [ReplyRight, heq]
    by_cases hint : reply.sizeOfBuffer < 2 ^ 31
    · have hputs : Puts reply.sizeOfBuffer ⟨[], reply.sizeOfBuffer⟩
          (output.isSome = true ∧ replyFits reply.sizeOfBuffer token reply.code reply.statusMsg
            (itemsOf output) = true)
          (replyText token reply.code reply.statusMsg (itemsOf output))
          (replyDocument reply.sizeOfBuffer token reply.code reply.statusMsg output) :=
        replyDocument_puts reply.code reply.statusMsg output hint
      have hreach := hputs.reach
      rw [max_self] at hreach
      constructor
      · rintro ⟨-, hholds⟩ - - token' output' htoken' haction' hfits hplain hstatus hitems
        obtain rfl : token = token' := Option.some.inj (htoken.symm.trans htoken')
        obtain rfl : output = some output' := Option.some.inj (haction.symm.trans haction')
        obtain ⟨hsuccess, htext⟩ := hputs.done ⟨rfl, hfits⟩
        obtain ⟨token'', output'', htoken'', haction'', hholds⟩ := hholds hsuccess
        obtain rfl : token = token'' := Option.some.inj (htoken.symm.trans htoken'')
        obtain rfl : output' = output'' :=
          Option.some.inj (Option.some.inj (haction.symm.trans haction''))
        have hholds := hholds hplain hstatus hitems
        rw [htext] at hholds
        exact jsonItems_of_reply hplain hstatus hholds
      · intro hsound
        refine ⟨hreach, fun hsuccess => ?_⟩
        have hfits : output.isSome = true ∧ replyFits reply.sizeOfBuffer token reply.code
            reply.statusMsg (itemsOf output) = true := by
          by_contra hfull
          exact hputs.full hfull hsuccess
        obtain ⟨output', rfl⟩ := Option.isSome_iff_exists.mp hfits.1
        refine ⟨token, output', htoken, haction, fun hplain hstatus hitems => ?_⟩
        have hjson := hsound hbuffer hint token output' htoken haction hfits.2 hplain hstatus hitems
        have hroom := hfits.2
        rw [replyFits] at hroom
        simp only [Bool.and_eq_true] at hroom
        rw [(hputs.done hfits).2]
        exact holdsReply_of_printable hplain hstatus ⟨writable_of_itemsFit hroom.1.2, hitems, hjson⟩
    · have hlarge := Nat.not_lt.mp hint
      rw [replyDocument_large hlarge hsize]
      exact iff_of_true ⟨Nat.le_refl _, JsonCode.noConfusion⟩ fun _ h => absurd h hint
  · have hnothing : iotConstructActionJson reply = (.inval, ⟨[], 0⟩) := by
      rw [iotConstructActionJson]
      cases hbuffer : reply.jsonBuffer with
      | false => rfl
      | true =>
        cases htoken : reply.clientToken with
        | none => rfl
        | some token =>
          cases haction : reply.action with
          | none => rfl
          | some output => exact absurd ⟨hbuffer, token, output, htoken, haction⟩ hgiven
    rw [ReplyRight, hnothing]
    refine iff_of_true ⟨Nat.zero_le _, JsonCode.noConfusion⟩ ?_
    intro hbuffer _ token output htoken haction
    exact absurd ⟨hbuffer, token, some output, htoken, haction⟩ hgiven

/-- The documents come out right exactly if, when there is an entry, the buffer is not overrun by
the head of an event, and documents that there is room for have items that are printed as JSON
values, at least one in each event and in the reply. -/
theorem documents_right_iff (call : EventCall) (client : EventClient) (reply : ActionReply)
    (hcall : call.sizeOfBuffer < 2 ^ 32) (hreply : reply.sizeOfBuffer < 2 ^ 32) :
    (EventsRight call client ↔ EventsSound call client) ∧ (ReplyRight reply ↔ ReplySound reply) :=
  ⟨eventsRight_iff call client hcall, replyRight_iff reply hreply⟩

def fiveItem : Item := ⟨some ⟨ascii "a", a_noNul⟩, .scalar (.int32 5)⟩

theorem x_noNul (n : ℕ) : (0 : UInt8) ∉ List.replicate n 0x78 := by
  intro hmem
  exact absurd (List.eq_of_mem_replicate hmem) (by decide)

/-- An event of type `info` with a name of this many letters. -/
def longEvent (n : ℕ) (items : List Item) : PostedEvent :=
  ⟨some ⟨List.replicate n 0x78, x_noNul n⟩, some ⟨ascii "info", by decide⟩, 0, some items⟩

/-- A post of these events in a buffer of this size. -/
def eventCall (size : ℕ) (events : List PostedEvent) : EventCall :=
  ⟨true, size, some (events.map some), none, 5000, true, true, 0, 0⟩

/-- A device of the product `P` that waits for no replies. -/
def clientP : EventClient := ⟨productP, []⟩

def fiveReply : ActionReply :=
  ⟨true, 200, some ⟨ascii "t", by decide⟩, some (some [fiveItem]), 0, ⟨ascii "ok", by decide⟩⟩

theorem b_noNul : (0 : UInt8) ∉ ascii "b" := by decide

def fiveItems : List Item := [fiveItem, ⟨some ⟨ascii "b", b_noNul⟩, .scalar (.int32 5)⟩]

theorem jsonItems_five : JsonItems fiveItems := by
  refine ⟨List.cons_ne_nil _ _, fun item hmem => ?_⟩
  rcases List.mem_cons.mp hmem with rfl | hmem
  · rfl
  · rw [List.mem_singleton.mp hmem]
    rfl

/-- Two events with two items each, and a reply. -/
theorem documents_right_two :
    EventsRight (eventCall 400 [longEvent 1 fiveItems, longEvent 2 fiveItems]) clientP ∧
      ReplyRight fiveReply := by
  obtain ⟨hevents, hreply⟩ := documents_right_iff
    (eventCall 400 [longEvent 1 fiveItems, longEvent 2 fiveItems]) clientP fiveReply (by decide)
    (by decide)
  constructor
  · apply hevents.mpr
    rintro - - - events hevents
    obtain rfl := Option.some.inj hevents
    refine ⟨by decide +kernel, fun _ given hgiven _ => ?_⟩
    obtain rfl : [longEvent 1 fiveItems, longEvent 2 fiveItems] = given :=
      List.map_injective_iff.mpr (Option.some_injective _) hgiven
    refine ⟨List.cons_ne_nil _ _, fun event hmem => ?_⟩
    rcases List.mem_cons.mp hmem with rfl | hmem
    · exact jsonItems_five
    · rw [List.mem_singleton.mp hmem]
      exact jsonItems_five
  · apply hreply.mpr
    rintro - - token output - haction - - - -
    obtain rfl : [fiveItem] = output := Option.some.inj (Option.some.inj haction)
    exact ⟨List.cons_ne_nil _ _, fun item hmem => by rw [List.mem_singleton.mp hmem]; rfl⟩

/-- The head of a second event with a name of 200 letters is written beyond a buffer of 250 bytes,
and an event without items is said to be a success and is no JSON. -/
theorem documents_wrong :
    ¬ EventsRight (eventCall 250 [longEvent 1 [fiveItem], longEvent 200 [fiveItem]]) clientP ∧
      ¬ EventsRight (eventCall 250 [longEvent 1 []]) clientP := by
  constructor
  · intro hright
    obtain ⟨hover, -⟩ := (eventsRight_iff _ _ (by decide)).mp hright rfl ⟨by decide, rfl, rfl⟩
      (by decide) _ rfl
    exact absurd hover (by decide +kernel)
  · intro hright
    obtain ⟨-, hsound⟩ := (eventsRight_iff _ _ (by decide)).mp hright rfl ⟨by decide, rfl, rfl⟩
      (by decide) _ rfl
    have hplain : PlainTexts clientP.template.clientToken [longEvent 1 []] :=
      ⟨by decide, fun event hmem => by rw [List.mem_singleton.mp hmem]; decide⟩
    obtain ⟨-, hitems⟩ := hsound (by decide +kernel) [longEvent 1 []] rfl hplain
    exact (hitems _ (List.mem_singleton_self _)).1 rfl

end Right

end IotExplorer.EventObjects
