import Mathlib.Data.List.DropRight
import NetSiege.Lib.IStream
import NetSiege.Oms.CampaignModule
import NetSiege.Oms.ObjectManager

/-!
# Registering types (`objectmanager.cpp`, `serializer.cpp`)

The scripts of a campaign register its types on the server and on the clients, with a class for
either side. What is registered is said by the last call with a name
(`find?_registerAll`), and after the same calls both sides have the same types if and only if the
classes they have are the same (`registeredTypes_eq_iff`).
-/

namespace NetSiege

open Lib

namespace Serializer

/-- `boost::trim`. -/
def trim (text : List Char) : List Char := (text.dropWhile isSpace).rdropWhile isSpace

/-- `Serializer::getPropertyList`. -/
def getPropertyList (properties : String) : List String :=
  (properties.toList.splitOn ',').map fun p => .ofList (trim p)

/-- A text without blanks around it. -/
def Tight (text : List Char) : Prop :=
  (∀ c ∈ text.head?, isSpace c = false) ∧ ∀ c ∈ text.getLast?, isSpace c = false

theorem rdropWhile_append {text after : List Char} (h : ∀ c ∈ after, isSpace c = true) :
    (text ++ after).rdropWhile isSpace = text.rdropWhile isSpace := by
  have hreverse : ∀ c ∈ after.reverse, isSpace c = true := fun c hc => h c (List.mem_reverse.1 hc)
  rw [List.rdropWhile, List.reverse_append, List.dropWhile_append_of_pos hreverse, List.rdropWhile]

/-- The blanks around a text are cut off. -/
theorem trim_padded {before text after : List Char} (hbefore : ∀ c ∈ before, isSpace c = true)
    (htext : Tight text) (hafter : ∀ c ∈ after, isSpace c = true) :
    trim (before ++ (text ++ after)) = text := by
  rw [trim, List.dropWhile_append_of_pos hbefore]
  cases text with
  | nil =>
    have hnil : after.dropWhile isSpace = [] := List.dropWhile_eq_nil_iff.2 hafter
    rw [List.nil_append, hnil]
    rfl
  | cons c text =>
    have hfirst : isSpace c = false := htext.1 c rfl
    have hself : (c :: text ++ after).dropWhile isSpace = c :: text ++ after := by
      rw [List.cons_append, List.dropWhile_cons_of_neg (by simp [hfirst])]
    rw [hself, rdropWhile_append hafter, List.rdropWhile_eq_self_iff]
    intro hne
    rw [htext.2 _ (List.getLast?_eq_some_getLast hne)]
    exact Bool.false_ne_true

/-- A name with the blanks around it in a list. -/
structure Listed where
  before : List Char
  name : List Char
  after : List Char

/-- The name as it stands in the list. -/
def Listed.text (entry : Listed) : List Char := entry.before ++ (entry.name ++ entry.after)

/-- The entry is a name with nothing but blanks around it. -/
structure Listed.Proper (entry : Listed) : Prop where
  before : ∀ c ∈ entry.before, isSpace c = true
  tight : Tight entry.name
  after : ∀ c ∈ entry.after, isSpace c = true
  single : ',' ∉ entry.name

/-- **Lists are read as written**, with any blanks around the names. -/
theorem getPropertyList_written {entries : List Listed} (hne : entries ≠ [])
    (hproper : ∀ entry ∈ entries, entry.Proper) :
    getPropertyList (.ofList ([','].intercalate (entries.map Listed.text))) =
      entries.map fun entry => .ofList entry.name := by
  have hcomma : ∀ text ∈ entries.map Listed.text, ',' ∉ text := by
    intro text htext hmem
    obtain ⟨entry, hentry, rfl⟩ := List.mem_map.1 htext
    obtain hbefore | hrest := List.mem_append.1 hmem
    · cases (hproper entry hentry).before _ hbefore
    obtain hname | hafter := List.mem_append.1 hrest
    · exact (hproper entry hentry).single hname
    · cases (hproper entry hentry).after _ hafter
  rw [getPropertyList, String.toList_ofList,
    List.splitOn_intercalate ',' hcomma (by simpa using hne), List.map_map]
  refine List.map_congr_left fun entry hentry => congrArg String.ofList ?_
  exact trim_padded (hproper entry hentry).before (hproper entry hentry).tight
    (hproper entry hentry).after

end Serializer

/-- What a script passes to `gameObjectRegister`. -/
structure TypeRegistration where
  name : String
  serverClass : String
  clientClass : String
  syncProperties : String
  flags : UInt32 := 0

namespace TypeRegistration

/-- The call with one class for both sides. -/
def ofClass (name className syncProperties : String) (flags : UInt32) : TypeRegistration :=
  ⟨name, className, className, syncProperties, flags⟩

/-- The class on the client or on the server. -/
def scriptClass (r : TypeRegistration) (modeClient : Bool) : String :=
  if modeClient then r.clientClass else r.serverClass

/-- What is registered. -/
def info (r : TypeRegistration) (modeClient : Bool) : ScriptObjectInfo where
  typeName := r.name
  className := r.scriptClass modeClient
  syncProperties := Serializer.getPropertyList r.syncProperties
  flags := r.flags

theorem info_eq (r : TypeRegistration) (h : r.serverClass = r.clientClass) :
    r.info false = r.info true := by
  simp [info, scriptClass, h]

end TypeRegistration

namespace ObjectManager

variable {σ : Type}

/-- `ObjectManager::registerObject`, called by a script of a module that has these classes. -/
def registerObject (declares : String → Bool) (modeClient : Bool) (m : ObjectManager σ)
    (r : TypeRegistration) : Except Trap (Bool × ObjectManager σ) :=
  match m.registeredTypes.find? r.name with
  | some _ => .error .assertion
  | none =>
    if declares (r.scriptClass modeClient) then
      .ok (true, { m with
        registeredTypes := m.registeredTypes.insert r.name (r.info modeClient) })
    else .ok (false, m)

/-- The manager after the calls of a script. -/
def registerAll (declares : String → Bool) (modeClient : Bool) (m : ObjectManager σ)
    (rs : List TypeRegistration) : Except Trap (ObjectManager σ) :=
  rs.foldlM (fun m r => (m.registerObject declares modeClient r).map (·.2)) m

variable {declares : String → Bool} {modeClient : Bool} {m m' : ObjectManager σ}
  {r : TypeRegistration} {rs : List TypeRegistration} {name : String}

/-- What a call does that comes through. -/
theorem registerObject_eq_ok {b : Bool}
    (h : m.registerObject declares modeClient r = .ok (b, m')) :
    m.registeredTypes.find? r.name = none ∧ b = declares (r.scriptClass modeClient) ∧
      ∀ name, m'.registeredTypes.find? name =
        if declares (r.scriptClass modeClient) = true ∧ name = r.name then some (r.info modeClient)
        else m.registeredTypes.find? name := by
  unfold registerObject at h
  split at h
  · cases h
  next hnone =>
  split at h
  · next hdeclares =>
    cases h
    refine ⟨hnone, hdeclares.symm, fun name => ?_⟩
    simp only [OrdMap.find?_insert, hdeclares, true_and]
  · next hdeclares =>
    cases h
    exact ⟨hnone, (Bool.eq_false_iff.2 hdeclares).symm, fun name =>
      (if_neg fun h => hdeclares h.1).symm⟩

theorem registerAll_cons (h : m.registerAll declares modeClient (r :: rs) = .ok m') :
    ∃ m1 b, m.registerObject declares modeClient r = .ok (b, m1) ∧
      m1.registerAll declares modeClient rs = .ok m' := by
  obtain ⟨m1, hone, hrest⟩ := foldlM_cons_eq_ok.1 h
  cases hfirst : m.registerObject declares modeClient r with
  | error trap =>
    rw [hfirst] at hone
    cases hone
  | ok result =>
    rw [hfirst] at hone
    cases hone
    exact ⟨result.2, result.1, rfl, hrest⟩

/-- What is registered stays, and its name is not registered again. -/
theorem registered_stays {info : ScriptObjectInfo}
    (h : m.registerAll declares modeClient rs = .ok m')
    (hinfo : m.registeredTypes.find? name = some info) :
    m'.registeredTypes.find? name = some info ∧ ∀ r ∈ rs, r.name ≠ name := by
  induction rs generalizing m with
  | nil =>
    cases h
    exact ⟨hinfo, List.forall_mem_nil _⟩
  | cons r rs ih =>
    obtain ⟨m1, b, hone, hrest⟩ := registerAll_cons h
    obtain ⟨hnone, _, hfind⟩ := registerObject_eq_ok hone
    have hne : r.name ≠ name := by
      rintro rfl
      cases hnone.symm.trans hinfo
    obtain ⟨hstays, hrs⟩ := ih hrest (by rw [hfind, if_neg fun h => hne h.2.symm, hinfo])
    exact ⟨hstays, List.forall_mem_cons.2 ⟨hne, hrs⟩⟩

/-- What the calls register. -/
theorem find?_registerAll {info : ScriptObjectInfo}
    (h : m.registerAll declares modeClient rs = .ok m') :
    m'.registeredTypes.find? name = some info ↔
      m.registeredTypes.find? name = some info ∨
        ∃ r ∈ rs, r.name = name ∧ declares (r.scriptClass modeClient) = true ∧
          r.info modeClient = info := by
  induction rs generalizing m with
  | nil =>
    cases h
    simp
  | cons r rs ih =>
    obtain ⟨m1, b, hone, hrest⟩ := registerAll_cons h
    obtain ⟨hnone, _, hfind⟩ := registerObject_eq_ok hone
    rw [ih hrest, hfind, List.exists_mem_cons_iff, ← or_assoc]
    refine or_congr_left ?_
    split
    · next hnew =>
      obtain ⟨hdeclares, rfl⟩ := hnew
      simp [hnone, hdeclares]
    · next hold =>
      constructor
      · exact .inl
      · rintro (hinfo | ⟨rfl, hdeclares, _⟩)
        · exact hinfo
        · exact absurd ⟨hdeclares, rfl⟩ hold

/-- A call that registers a type is the last one with its name. -/
theorem getLast?_of_declared (h : m.registerAll declares modeClient rs = .ok m') (hr : r ∈ rs)
    (hdeclares : declares (r.scriptClass modeClient) = true) :
    (rs.filter (·.name = r.name)).getLast? = some r := by
  obtain ⟨pre, post, rfl⟩ := List.append_of_mem hr
  obtain ⟨m1, _, hrest⟩ := foldlM_append_eq_ok.1 h
  obtain ⟨m2, b, hone, hrest⟩ := registerAll_cons hrest
  obtain ⟨_, _, hfind⟩ := registerObject_eq_ok hone
  have hpost : ∀ q ∈ post, q.name ≠ r.name :=
    (registered_stays hrest ((hfind r.name).trans (if_pos ⟨hdeclares, rfl⟩))).2
  have hnil : post.filter (·.name = r.name) = [] :=
    List.filter_eq_nil_iff.2 fun q hq heq => hpost q hq (of_decide_eq_true heq)
  have hself : (r :: post).filter (·.name = r.name) = [r] := by
    rw [List.filter_cons_of_pos (by simp), hnil]
  rw [List.filter_append, hself, List.getLast?_concat]

/-! ## Both sides -/

variable {σ' : Type} {declares' : String → Bool} {modeClient' : Bool} {c c' : ObjectManager σ'}

/-- A call that registers a type on one side does so on the other, with the same class, if both have
the same types. -/
theorem declared_on_both (h : m.registerAll declares modeClient rs = .ok m')
    (h' : c.registerAll declares' modeClient' rs = .ok c') (hc : c.registeredTypes = ∅)
    (heq : m'.registeredTypes = c'.registeredTypes) (hr : r ∈ rs)
    (hdeclares : declares (r.scriptClass modeClient) = true) :
    declares' (r.scriptClass modeClient') = true ∧
      r.scriptClass modeClient = r.scriptClass modeClient' := by
  have hinfo := (find?_registerAll h).2 (.inr ⟨r, hr, rfl, hdeclares, rfl⟩)
  rw [heq, find?_registerAll h', hc] at hinfo
  obtain hempty | ⟨r', hr', hname, hdeclares', hinfo⟩ := hinfo
  · cases hempty
  have hlast := getLast?_of_declared h' hr' hdeclares'
  rw [hname, getLast?_of_declared h hr hdeclares] at hlast
  cases hlast
  exact ⟨hdeclares', (congrArg ScriptObjectInfo.className hinfo).symm⟩

/-- **Both sides register alike.** After a server and a client have come through the same calls,
which of them register a type and with what, they have the same types, if and only if for each of
the calls both have the class it is registered with or neither has, and it is the same one. -/
theorem registeredTypes_eq_iff (h : m.registerAll declares false rs = .ok m')
    (h' : c.registerAll declares' true rs = .ok c') (hm : m.registeredTypes = ∅)
    (hc : c.registeredTypes = ∅) :
    m'.registeredTypes = c'.registeredTypes ↔ ∀ r ∈ rs,
      declares r.serverClass = declares' r.clientClass ∧
        (declares r.serverClass = true → r.serverClass = r.clientClass) := by
  constructor
  · intro heq r hr
    refine ⟨Bool.eq_iff_iff.2 ⟨fun hdeclares => ?_, fun hdeclares => ?_⟩, fun hdeclares => ?_⟩
    · exact (declared_on_both h h' hc heq hr hdeclares).1
    · exact (declared_on_both h' h hm heq.symm hr hdeclares).1
    · exact (declared_on_both h h' hc heq hr hdeclares).2
  · intro halike
    refine OrdMap.ext_of_find? fun name => Option.ext fun info => ?_
    rw [find?_registerAll h, find?_registerAll h', hm, hc]
    refine or_congr_right (exists_congr fun r => and_congr_right fun hr => and_congr_right
      fun _ => ?_)
    obtain ⟨hsame, hclass⟩ := halike r hr
    constructor
    · rintro ⟨hdeclares, rfl⟩
      exact ⟨hsame.symm.trans hdeclares, (r.info_eq (hclass hdeclares)).symm⟩
    · rintro ⟨hdeclares, rfl⟩
      have hdeclares : declares r.serverClass = true := hsame.trans hdeclares
      exact ⟨hdeclares, r.info_eq (hclass hdeclares)⟩

/-- A campaign that tries a class no side has, tries again with the one of the test campaign, and
registers a type of a missing class. -/
def attempts : List TypeRegistration :=
  [.ofClass "Character" "Soldier" "bla" 0,
    .ofClass "Character" "Character" "bla, blup,foo, constants" 0, .ofClass "Ghost" "Ghost" "" 0]

/-- Both sides have the character at last, and neither has the ghost. -/
theorem registeredTypes_eq_iff_character :
    ∃ m c : ObjectManager testModule.Object,
      registerAll testModule.declares false {} attempts = .ok m ∧
      registerAll testModule.declares true {} attempts = .ok c ∧
      (m.registeredTypes.find? "Character").isSome = true ∧
      m.registeredTypes.find? "Ghost" = none ∧ m.registeredTypes = c.registeredTypes := by
  have hserver : registerAll testModule.declares false ({} : ObjectManager testModule.Object)
      attempts = .ok _ := rfl
  have hclient : registerAll testModule.declares true ({} : ObjectManager testModule.Object)
      attempts = .ok _ := rfl
  have hone : ∀ r ∈ attempts, r.serverClass = r.clientClass := by
    simp [attempts, TypeRegistration.ofClass]
  refine ⟨_, _, hserver, hclient, rfl, rfl, ?_⟩
  refine (registeredTypes_eq_iff hserver hclient rfl rfl).2 fun r hr => ?_
  exact ⟨congrArg testModule.declares (hone r hr), fun _ => hone r hr⟩

end ObjectManager

end NetSiege
