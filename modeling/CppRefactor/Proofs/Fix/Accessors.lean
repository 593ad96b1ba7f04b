import CppRefactor.Fix.Accessors
import CppRefactor.Proofs.Fix.Request

/-!
When a member counts as having its accessors: the class has functions of the names that are made for
it. The functions of a class may change how such names are made, and they count only if they stand
in the class itself.
-/

namespace CppRefactor

namespace Accessors

variable {settings : Settings} {s s' : OtherMembers} {member : String}

/-- A name like `getFoo`. -/
def isPrefixed (name : String) : Bool :=
  match Text.dropStart? "get" name.toList with
  | some (c :: _) => Text.isUppercase c
  | _ => false

theorem OtherMembers.hasGetPrefix_iff : s.hasGetPrefix = true ↔
    ∃ m ∈ s.methods, isPrefixed m.1 = true :=
  List.any_eq_true

theorem isPrefixed_get (c : Char) (cs : List Char) :
    isPrefixed ("get" ++ .ofList (c :: cs)) = Text.isUppercase c := by
  have hchars : ("get" ++ String.ofList (c :: cs)).toList = "get".toList ++ c :: cs := by simp
  rw [isPrefixed, hchars]
  rfl

theorem exists_of_isPrefixed {base : String} (h : isPrefixed base = true) :
    ∃ rest, base = .ofList ('g' :: rest) ∧ Text.capitalize base = .ofList ('G' :: rest) := by
  unfold isPrefixed Text.dropStart? at h
  split at h
  · rename_i hdrop
    split at hdrop
    · rename_i hstart
      obtain ⟨rest, hrest⟩ := List.isPrefixOf_iff_prefix.mp hstart
      have hbase : base = .ofList ('g' :: ('e' :: 't' :: rest)) := by
        rw [← String.ofList_toList (s := base), ← hrest]
        rfl
      refine ⟨_, hbase, ?_⟩
      rw [hbase, Text.capitalize, String.toList_ofList]
      rfl
    · cases hdrop
  · cases h

/-- The names for the accessors of a member, by what else its class has. -/
def namesIn (settings : Settings) (s : OtherMembers) (member : String) : AccessorNames :=
  .ofMember member (settings.preferGetPrefix || s.hasGetPrefix) s.fields.contains

/-- The getter gets a prefix. -/
def asksPrefix (settings : Settings) (s : OtherMembers) (member : String) : Bool :=
  settings.preferGetPrefix || s.hasGetPrefix || AccessorNames.plainName member == member ||
    s.fields.contains (AccessorNames.plainName member)

theorem getter_namesIn (settings : Settings) (s : OtherMembers) (member : String) :
    (namesIn settings s member).getter =
      if asksPrefix settings s member then
        "get" ++ Text.capitalize (AccessorNames.plainName member)
      else AccessorNames.plainName member := rfl

theorem isPrefixed_setter (settings : Settings) (s : OtherMembers) (member : String) :
    isPrefixed (namesIn settings s member).setter = false := by
  rw [namesIn, AccessorNames.ofMember]
  simp only [isPrefixed, Text.dropStart?, String.toList_append]
  rfl

/-- The getter has no prefix, but a name that looks as if it had. -/
structure LooksPrefixed (settings : Settings) (s : OtherMembers) (member : String) : Prop where
  bare : asksPrefix settings s member = false
  looks : isPrefixed (AccessorNames.plainName member) = true

/-- The class gets functions of the names that are made for a member. -/
structure OtherMembers.Gains (s s' : OtherMembers) (names : AccessorNames) : Prop where
  fields : ∀ f, f ∈ s'.fields ↔ f ∈ s.fields
  methods : ∀ m, m ∈ s'.methods ↔
    m ∈ s.methods ∨ m = (names.getter, 0) ∨ m = (names.setter, 1)

variable (h : s.Gains s' (namesIn settings s member))

include h

theorem setter_again : s'.methods.contains ((namesIn settings s' member).setter, 1) = true :=
  List.contains_iff_mem.mpr ((h.methods _).mpr (.inr (.inr rfl)))

theorem hasGetPrefix_again :
    s'.hasGetPrefix = (s.hasGetPrefix || isPrefixed (namesIn settings s member).getter) := by
  rw [Bool.eq_iff_iff, Bool.or_eq_true, OtherMembers.hasGetPrefix_iff,
    OtherMembers.hasGetPrefix_iff]
  simp only [h.methods]
  constructor
  · rintro ⟨m, hm | rfl | rfl, hp⟩
    · exact .inl ⟨m, hm, hp⟩
    · exact .inr hp
    · rw [isPrefixed_setter] at hp
      cases hp
  · rintro (⟨m, hm, hp⟩ | hp)
    · exact ⟨m, .inl hm, hp⟩
    · exact ⟨_, .inr (.inl rfl), hp⟩

theorem asksPrefix_again : asksPrefix settings s' member =
    (asksPrefix settings s member || isPrefixed (namesIn settings s member).getter) := by
  have hfields : s'.fields.contains = s.fields.contains := by
    funext f
    rw [Bool.eq_iff_iff, List.contains_iff_mem, List.contains_iff_mem, h.fields]
  rw [asksPrefix, asksPrefix, hasGetPrefix_again h, hfields]
  simp only [Bool.or_comm, Bool.or_left_comm]

theorem getter_of_not_looksPrefixed (hlooks : ¬ LooksPrefixed settings s member) :
    (namesIn settings s' member).getter = (namesIn settings s member).getter := by
  have hasked : asksPrefix settings s' member = asksPrefix settings s member := by
    rw [asksPrefix_again h]
    cases hbare : asksPrefix settings s member with
    | true => rfl
    | false =>
      rw [Bool.false_or, ← Bool.not_eq_true, getter_namesIn, hbare]
      exact fun hprefixed => hlooks ⟨hbare, hprefixed⟩
  rw [getter_namesIn, getter_namesIn, hasked]

theorem LooksPrefixed.not_found (hlooks : LooksPrefixed settings s member) :
    ((namesIn settings s' member).getter, 0) ∉ s'.methods := by
  obtain ⟨rest, hbase, hcapital⟩ := exists_of_isPrefixed hlooks.looks
  have hgetter : (namesIn settings s member).getter = .ofList ('g' :: rest) := by
    rw [getter_namesIn, hlooks.bare, ← hbase]
    rfl
  have hgetter' : (namesIn settings s' member).getter = "get" ++ .ofList ('G' :: rest) := by
    rw [getter_namesIn, asksPrefix_again h, hgetter, ← hbase, hlooks.looks, Bool.or_true, hcapital]
    rfl
  intro hfound
  rcases (h.methods _).mp hfound with hold | hsame | hsetter
  · have hprefix : isPrefixed (namesIn settings s' member).getter = true := by
      rw [hgetter', isPrefixed_get]
      rfl
    have hasked : asksPrefix settings s member = true := by
      rw [asksPrefix, OtherMembers.hasGetPrefix_iff.mpr ⟨_, hold, hprefix⟩]
      simp
    exact Bool.false_ne_true (hlooks.bare.symm.trans hasked)
  · have hprefix : "get".toList.length = 3 := rfl
    have hlength := congrArg (fun m : String × Nat => m.1.toList.length) hsame
    rw [hgetter, hgetter'] at hlength
    simp only [String.toList_append, String.toList_ofList, List.length_append,
      List.length_cons] at hlength
    omega
  · exact Nat.zero_ne_one (congrArg Prod.snd hsetter)

/-- The getter is found again under its name, unless the name itself brings the prefix into use. -/
theorem getter_again :
    s'.methods.contains ((namesIn settings s' member).getter, 0) = true ↔
      ¬ LooksPrefixed settings s member := by
  rw [List.contains_iff_mem]
  constructor
  · exact fun hfound hlooks => hlooks.not_found h hfound
  · intro hlooks
    rw [getter_of_not_looksPrefixed h hlooks]
    exact (h.methods _).mpr (.inr (.inl rfl))

end Accessors

namespace AccessorFix

open Accessors

/-- The class that a member is declared in. -/
def classOf? (r : Request) (m : Member) : Option SymbolId := do
  r.symbols.declaredAt? r.file (← m.cls.focus.name?.bind Name.last?).span.start

variable {r r' : Request} {m m' : Member} {cls cls' : SymbolId}

theorem choices_eq_nil {members : MemberInsertion} {place : Placement}
    {getter setter : Option Accessor} :
    choices members place getter setter = [] ↔ getter = none ∧ setter = none := by
  cases getter <;> cases setter <;> simp [choices]

def lacksGetter (s : OtherMembers) (names : AccessorNames) : Bool :=
  !s.methods.contains (names.getter, 0)

def lacksSetter (s : OtherMembers) (names : AccessorNames) (type : FieldType) : Bool :=
  !type.isConst && !s.methods.contains (names.setter, 1)

theorem offersFor_eq (hcls : classOf? r m = some cls)
    (hs : OtherMembers.of r.symbols cls m.name = s)
    (hnames : namesIn r.settings s m.name = names)
    (htype : FieldType.of r m.specs m.declarator = type) :
    offersFor r m =
      if !lacksGetter s names && !lacksSetter s names type then .ok []
      else do
        let insertion ← orError (.malformed .classWithoutBody)
          (MemberInsertion.find? r.text r.lines m.cls.focus .pub r.settings.indentWidth)
        return choices insertion (← Accessors.placement r m.cls cls)
          (if lacksGetter s names then some (getter r m.name names type) else none)
          (if lacksSetter s names type then some (setter r m.name names type) else none) := by
  subst hs hnames htype
  unfold offersFor
  change (orError _ (classOf? r m) >>= _) = _
  rw [hcls]
  rfl

theorem offersFor_eq_nil_iff (hcls : classOf? r m = some cls)
    (hs : OtherMembers.of r.symbols cls m.name = s)
    (hnames : namesIn r.settings s m.name = names)
    (htype : FieldType.of r m.specs m.declarator = type) :
    offersFor r m = .ok [] ↔ lacksGetter s names = false ∧ lacksSetter s names type = false := by
  rw [offersFor_eq hcls hs hnames htype]
  split
  · rename_i hnone
    simpa using hnone
  · rename_i hsome
    constructor
    · intro hok
      obtain ⟨insertion, -, hok⟩ := of_bind_eq_ok hok
      obtain ⟨place, -, hok⟩ := of_bind_eq_ok hok
      simpa using choices_eq_nil.mp (Except.ok.inj hok)
    · rintro ⟨hgetter, hsetter⟩
      rw [hgetter, hsetter] at hsome
      exact absurd rfl hsome

/-- Once the functions that are made for a member are in its class, they are found there, unless the
getter has the first name in the class that looks as if it had the prefix. -/
theorem offersFor_again (hsettings : r'.settings = r.settings) (hname : m'.name = m.name)
    (hcls : classOf? r' m' = some cls')
    (hgains : (OtherMembers.of r.symbols cls m.name).Gains
      (OtherMembers.of r'.symbols cls' m.name)
      (namesIn r.settings (OtherMembers.of r.symbols cls m.name) m.name)) :
    offersFor r' m' = .ok [] ↔
      ¬ LooksPrefixed r.settings (OtherMembers.of r.symbols cls m.name) m.name := by
  rw [offersFor_eq_nil_iff hcls rfl rfl rfl, hname, hsettings, lacksSetter, setter_again hgains,
    Bool.not_true, Bool.and_false, and_iff_left rfl, lacksGetter, Bool.not_eq_false',
    getter_again hgains]

/-- The getter of `m_getX` is `getX`, and with it in the class the getter would be `getGetX`. -/
example : LooksPrefixed {} ⟨[], []⟩ "m_getX" := ⟨by decide, by decide⟩

/-- The public section ends with the specifier behind the body of `f`, on a line that begins in the
body. The accessors are put there, and all are offered again. -/
theorem accessors_in_body :
    let before := "struct S \x7b\n int x; void f() \x7b\n"
    let after := "\x7d private:\n\x7d;\n"
    let accessors := " int getX() const\n \x7b\n     return x;\n \x7d\n" ++
      " void setX(int value)\n \x7b\n     x = value;\n \x7d\n"
    let offered := fun text =>
      Request.textsOffered offers changes (RemoveUsing.snapshotOf text) 0 16
    (offered (before ++ after)).head? = some (some [("/a.cpp", before ++ accessors ++ after)]) ∧
      (offered (before ++ accessors ++ after)).length = 3 := by
  decide +kernel

end AccessorFix

end CppRefactor
