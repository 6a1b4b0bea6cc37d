import SalamanderSftp.Fs.Profile
import SalamanderSftp.Lib.ComponentLength
import SalamanderSftp.Lib.Registry

/-!
# The configuration in the registry

`SaveConfiguration` writes the settings as values of a key, the folder names joined into one of
them, and every profile as a numbered subkey of "Servers"; `LoadConfiguration` reads them back in
the same order. Each value is a `Field`, so the round trip (`load_save_configuration`) comes down to
the names being different and each field to read what it wrote.
-/

namespace SalamanderSftp

open Components Registry

/-! ## Values -/

/-- A value of type `REG_SZ`, `REG_DWORD` or `REG_BINARY`. -/
inductive RegValue
  | sz (text : CStr)
  | dword (n : UInt32)
  | binary (data : Bytes)

/-- Names are compared without case. -/
def regName (name : CStr) : CStr := name.map toLower

abbrev RegKey := Key CStr RegValue

section Fields

variable {σ : Type*}

/-- A string that is read into a buffer, if it fits. -/
def szField (name : String) {n : ℕ} (get : σ → CharBuf n) (set : σ → CharBuf n → σ) :
    Field CStr RegValue σ where
  name := regName (ascii name)
  write s := .sz (get s).text
  read v s := match v with
    | .sz text => if h : text.length < n then set s ⟨text, h⟩ else s
    | _ => s

def dwordField (name : String) (get : σ → UInt32) (set : σ → UInt32 → σ) :
    Field CStr RegValue σ where
  name := regName (ascii name)
  write s := .dword (get s)
  read v s := match v with
    | .dword n => set s n
    | _ => s

/-- A `DWORD` that is 1 or 0 for a flag. -/
def boolField (name : String) (get : σ → Bool) (set : σ → Bool → σ) : Field CStr RegValue σ :=
  dwordField name (fun s => if get s then 1 else 0) fun s n => set s (n ≠ 0)

def binaryField (name : String) {n : ℕ} (get : σ → { data : Bytes // data.length = n })
    (set : σ → { data : Bytes // data.length = n } → σ) : Field CStr RegValue σ where
  name := regName (ascii name)
  write s := .binary (get s).1
  read v s := match v with
    | .binary data => if h : data.length = n then set s ⟨data, h⟩ else s
    | _ => s

@[simp] theorem szField_read (name : String) {n : ℕ} (get : σ → CharBuf n)
    (set : σ → CharBuf n → σ) (s t : σ) :
    (szField name get set).read ((szField name get set).write s) t = set t (get s) :=
  dif_pos (get s).fits

@[simp] theorem dwordField_read (name : String) (get : σ → UInt32)
    (set : σ → UInt32 → σ) (s t : σ) :
    (dwordField name get set).read ((dwordField name get set).write s) t = set t (get s) := rfl

@[simp] theorem boolField_read (name : String) (get : σ → Bool) (set : σ → Bool → σ) (s t : σ) :
    (boolField name get set).read ((boolField name get set).write s) t = set t (get s) := by
  unfold boolField
  rw [dwordField_read]
  cases get s <;> rfl

@[simp] theorem binaryField_read (name : String) {n : ℕ}
    (get : σ → { data : Bytes // data.length = n })
    (set : σ → { data : Bytes // data.length = n } → σ) (s t : σ) :
    (binaryField name get set).read ((binaryField name get set).write s) t = set t (get s) :=
  dif_pos (get s).2

end Fields

/-! ## Profiles -/

structure IsInt (n : ℤ) : Prop where
  low : -2 ^ 31 ≤ n
  high : n < 2 ^ 31

def dwordOf (n : ℤ) : UInt32 := (Int32.ofInt n).toUInt32

def intOf (n : UInt32) : ℤ := n.toInt32.toInt

theorem isInt_intOf (n : UInt32) : IsInt (intOf n) := ⟨n.toInt32.le_toInt, n.toInt32.toInt_lt⟩

theorem intOf_dwordOf {n : ℤ} (h : IsInt n) : intOf (dwordOf n) = n := by
  unfold intOf dwordOf
  rw [Int32.toInt32_toUInt32, Int32.toInt_ofInt_of_le h.low h.high]

/-- A saved server with the folder that it is listed in. -/
structure ProfileInFolder extends CSftpSavedProfile where
  Folder : CharBuf 128
  port_int : IsInt Port
  protocol_int : IsInt Protocol

def blankProfile : ProfileInFolder where
  Name := .copy 128 []
  Host := .copy 256 []
  Port := 22
  User := .copy 128 []
  Password := .copy 256 []
  KeyFile := .copy 260 []
  Path := .copy 260 []
  SftpServer := .copy 260 []
  UseCompression := false
  Protocol := 0
  ScpFallback := false
  ExecOnEnter := true
  Folder := .copy 128 []
  port_int := ⟨by decide, by decide⟩
  protocol_int := ⟨by decide, by decide⟩

def profileFields : List (Field CStr RegValue ProfileInFolder) :=
  [szField "Name" (·.Name) fun p b => { p with Name := b },
    szField "Host" (·.Host) fun p b => { p with Host := b },
    dwordField "Port" (fun p => dwordOf p.Port) fun p n =>
      { p with Port := intOf n, port_int := isInt_intOf n },
    szField "User" (·.User) fun p b => { p with User := b },
    szField "Password" (·.Password) fun p b => { p with Password := b },
    szField "KeyFile" (·.KeyFile) fun p b => { p with KeyFile := b },
    szField "Path" (·.Path) fun p b => { p with Path := b },
    szField "SftpServer" (·.SftpServer) fun p b => { p with SftpServer := b },
    boolField "Compression" (·.UseCompression) fun p b => { p with UseCompression := b },
    dwordField "Protocol" (fun p => dwordOf p.Protocol)
      fun p n => { p with Protocol := intOf n, protocol_int := isInt_intOf n },
    boolField "ScpFallback" (·.ScpFallback) fun p b => { p with ScpFallback := b },
    boolField "ExecOnEnter" (·.ExecOnEnter) fun p b => { p with ExecOnEnter := b },
    szField "Folder" (·.Folder) fun p b => { p with Folder := b }]

def saveProfile (p : ProfileInFolder) (pk : RegKey) : RegKey := saveFields profileFields p pk

def loadProfile (pk : RegKey) : ProfileInFolder := loadFields profileFields pk blankProfile

theorem nodup_profileFields : (profileFields.map Field.name).Nodup := by decide +kernel

/-- A profile is read back from any key that it is saved to. -/
theorem load_save_profile (p : ProfileInFolder) (pk : RegKey) :
    loadProfile (saveProfile p pk) = p := by
  have hport := intOf_dwordOf p.port_int
  have hprotocol := intOf_dwordOf p.protocol_int
  unfold loadProfile saveProfile
  rw [loadFields_saveFields nodup_profileFields]
  simp only [profileFields, List.foldl_cons, List.foldl_nil, szField_read, dwordField_read,
    boolField_read, hport, hprotocol]

/-! ## Folders -/

def folderEnd : Byte := 10

def isFolderEnd (c : Byte) : Bool := c == folderEnd

/-- `SFTP_MAX_FOLDERS` and `SFTP_MAX_PROFILES`. -/
def SFTP_MAX_FOLDERS : ℕ := 64
def SFTP_MAX_PROFILES : ℕ := 100

def folderList (folders : List (CharBuf 128)) :
    CStr := [folderEnd].intercalate (folders.map CharBuf.text)

/-- The `strtok_s` loop. -/
def splitFolders (text : CStr) : List (CharBuf 128) :=
  ((tokens isFolderEnd text).take SFTP_MAX_FOLDERS).map (CharBuf.copy 128)

theorem CharBuf.copy_text_self {n : ℕ} [NeZero n] (b : CharBuf n) : CharBuf.copy n b.text = b :=
  CharBuf.ext (lstrcpyn_eq_self b.fits)

/-- Names that are not empty are what stands between the newlines. -/
theorem split_folderList {folders : List (CharBuf 128)} (hlen : folders.length ≤ SFTP_MAX_FOLDERS)
    (hname : ∀ f ∈ folders, f.text ≠ [] ∧ folderEnd ∉ f.text) :
    splitFolders (folderList folders) = folders := by
  have hwhole : Whole isFolderEnd (folders.map CharBuf.text) := by
    intro t ht
    obtain ⟨f, hf, rfl⟩ := List.mem_map.mp ht
    refine ⟨(hname f hf).1, fun c hc => ?_⟩
    refine beq_eq_false_iff_ne.mpr ?_
    rintro rfl
    exact (hname f hf).2 hc
  have htokens : tokens isFolderEnd (folderList folders) = folders.map CharBuf.text := by
    have hsep : isFolderEnd folderEnd = true := by decide
    rw [← tokens_absolute hsep hwhole]
    exact (tokens_cons (folderList folders) hsep).symm
  unfold splitFolders
  rw [htokens, List.take_of_length_le (by rwa [List.length_map]), List.map_map]
  exact List.map_id'' (fun f => CharBuf.copy_text_self f) folders

theorem length_folderList_lt {folders : List (CharBuf 128)}
    (hlen : folders.length ≤ SFTP_MAX_FOLDERS) :
    (folderList folders).length < SFTP_MAX_FOLDERS * 130 := by
  have hcost : ∀ fs : List (CharBuf 128), cost (fs.map CharBuf.text) ≤ 128 * fs.length := by
    intro fs
    induction fs with
    | nil => exact Nat.zero_le _
    | cons f fs ih =>
      have hfits := f.fits
      rw [List.map_cons, cost_cons, List.length_cons]
      omega
  have hprint := length_absolute_le folderEnd (folders.map CharBuf.text)
  have hsize : (absolute folderEnd (folders.map CharBuf.text)).length =
      (folderList folders).length + 1 := rfl
  have hmax : SFTP_MAX_FOLDERS = 64 := rfl
  have hall := hcost folders
  omega

/-! ## Settings -/

/-- The variables that are written and read as four bytes. -/
inductive DwordSetting
  | Number
  | CfgSavePosition
  | Size2FixedWidth
  | Size2Width
  | CreatedFixedWidth
  | CreatedWidth
  | ModifiedFixedWidth
  | ModifiedWidth
  | AccessedFixedWidth
  | AccessedWidth
  | DFSTypeFixedWidth
  | DFSTypeWidth
  | SftpLeavePanelAction
  deriving DecidableEq

def DwordSetting.name : DwordSetting → String
  | Number => "test number"
  | CfgSavePosition => "SavePosition"
  | Size2FixedWidth => "Size2FixedWidth"
  | Size2Width => "Size2Width"
  | CreatedFixedWidth => "CreatedFixedWidth"
  | CreatedWidth => "CreatedWidth"
  | ModifiedFixedWidth => "ModifiedFixedWidth"
  | ModifiedWidth => "ModifiedWidth"
  | AccessedFixedWidth => "AccessedFixedWidth"
  | AccessedWidth => "AccessedWidth"
  | DFSTypeFixedWidth => "DFSTypeFixedWidth"
  | DFSTypeWidth => "DFSTypeWidth"
  | SftpLeavePanelAction => "LeavePanelAction"

/-- What the configuration is kept in, with the entries of the two arrays that are in use. -/
structure Configuration where
  ConfigVersion : UInt32
  SftpDefaultSession : CharBuf 128
  SftpEncoding : Int32
  SftpFolders : List (CharBuf 128)
  Str : CharBuf 260
  dwords : DwordSetting → UInt32
  CfgWindowPlacement : { data : Bytes // data.length = 44 }
  SftpCloseTransferDlgOnFinish : Bool
  SftpProfiles : List ProfileInFolder

namespace Configuration

def CURRENT_CONFIG_VERSION : UInt32 := 4

/-- What is saved before the key of `CONFIG_KEY`. -/
def firstFields : List (Field CStr RegValue Configuration) :=
  [dwordField "Version" (fun _ => CURRENT_CONFIG_VERSION) fun c n => { c with ConfigVersion := n },
    szField "DefaultSession" (·.SftpDefaultSession) fun c b => { c with SftpDefaultSession := b },
    dwordField "Encoding" (·.SftpEncoding.toUInt32) fun c n => { c with SftpEncoding := n.toInt32 },
    { name := regName (ascii "FolderList")
      write := fun c => .sz (folderList c.SftpFolders)
      read := fun v c => match v with
        | .sz text => if text.length < SFTP_MAX_FOLDERS * 130 then
            { c with SftpFolders := splitFolders text } else c
        | _ => c }]

def strField : Field CStr RegValue Configuration :=
  szField "test string" (·.Str) fun c b => { c with Str := b }

def settingField (setting : DwordSetting) : Field CStr RegValue Configuration :=
  dwordField setting.name (·.dwords setting) fun c n =>
    { c with dwords := Function.update c.dwords setting n }

def lastFields : List (Field CStr RegValue Configuration) :=
  [settingField .Number, settingField .CfgSavePosition,
    binaryField "WindowPlacement" (·.CfgWindowPlacement) fun c b =>
      { c with CfgWindowPlacement := b },
    settingField .Size2FixedWidth, settingField .Size2Width, settingField .CreatedFixedWidth,
    settingField .CreatedWidth, settingField .ModifiedFixedWidth, settingField .ModifiedWidth,
    settingField .AccessedFixedWidth, settingField .AccessedWidth, settingField .DFSTypeFixedWidth,
    settingField .DFSTypeWidth, settingField .SftpLeavePanelAction,
    boolField "CloseTransferDlgOnFinish" (·.SftpCloseTransferDlgOnFinish)
      fun c b => { c with SftpCloseTransferDlgOnFinish := b }]

def testKey : CStr := regName (ascii "test key")
def serversKey : CStr := regName (ascii "Servers")
def count : CStr := regName (ascii "Count")

/-- The key of a profile. -/
def index (i : ℕ) : CStr := regName (decimal i)

/-- `SaveConfiguration`; `strcat_s` ends the program when the folder list does not fit its
buffer. -/
def save (c : Configuration) (regKey : RegKey) : Option RegKey :=
  if (folderList c.SftpFolders).length < SFTP_MAX_FOLDERS * 130 then
    let regKey := saveFields firstFields c regKey
    let regKey := regKey.createKey testKey (strField.save c)
    let regKey := saveFields lastFields c regKey
    some (regKey.createKey serversKey fun servers =>
      saveItems index saveProfile 0 c.SftpProfiles
        (servers.setValue count (.dword c.SftpProfiles.length.toUInt32)))
  else none

/-- The value of "Count", at most `SFTP_MAX_PROFILES`. -/
def profileCount (servers : RegKey) : ℕ :=
  match servers.getValue count with
  | some (.dword n) => min n.toNat SFTP_MAX_PROFILES
  | _ => 0

/-- `LoadConfiguration` over what is in memory. -/
def load (regKey : Option RegKey) (memory : Configuration) : Configuration :=
  match regKey with
  | none => memory
  | some k =>
    -- the version of a configuration that was stored without one
    let c := loadFields firstFields k { memory with ConfigVersion := 1 }
    let c := match k.openKey testKey with
      | some actKey => strField.load actKey c
      | none => c
    let c := loadFields lastFields k c
    match k.openKey serversKey with
    | some servers =>
      { c with SftpProfiles := loadItems index loadProfile (profileCount servers) servers }
    | none => c

/-- What fits the arrays: profiles and folders, the folders with names that are no separators of the
list. -/
structure Storable (c : Configuration) : Prop where
  profiles : c.SftpProfiles.length ≤ SFTP_MAX_PROFILES
  folders : c.SftpFolders.length ≤ SFTP_MAX_FOLDERS
  names : ∀ f ∈ c.SftpFolders, f.text ≠ [] ∧ folderEnd ∉ f.text

theorem index_injective : Function.Injective index := by
  have hdigits : ∀ n, index n = decimal n := by
    intro n
    have hkept : ∀ c : Byte, isDigit c = true → toLower c = c := by decide +kernel
    unfold index regName
    rw [List.map_congr_left fun c hc => hkept c (isDigit_of_mem_decimal hc), List.map_id']
  intro i j h
  rw [hdigits, hdigits] at h
  exact decimal_injective h

theorem nodup_fields : ((firstFields ++ lastFields).map Field.name).Nodup := by decide +kernel

theorem read_firstFields {c : Configuration} (h : c.Storable) (m : Configuration) :
    firstFields.foldl (fun t f => f.read (f.write c) t) m = { m with
      ConfigVersion := CURRENT_CONFIG_VERSION
      SftpDefaultSession := c.SftpDefaultSession
      SftpEncoding := c.SftpEncoding
      SftpFolders := c.SftpFolders } := by
  have hfits := length_folderList_lt h.folders
  have hsplit := split_folderList h.folders h.names
  simp only [firstFields, List.foldl_cons, List.foldl_nil, szField_read,
    dwordField_read, if_pos hfits, hsplit,
    Int32.toInt32_toUInt32]

theorem settingField_read (setting : DwordSetting) (c t : Configuration) :
    (settingField setting).read ((settingField setting).write c) t =
      { t with dwords := Function.update t.dwords setting (c.dwords setting) } := rfl

theorem read_lastFields (c m : Configuration) :
    lastFields.foldl (fun t f => f.read (f.write c) t) m = { m with
      dwords := c.dwords
      CfgWindowPlacement := c.CfgWindowPlacement
      SftpCloseTransferDlgOnFinish := c.SftpCloseTransferDlgOnFinish } := by
  simp only [lastFields, List.foldl_cons, List.foldl_nil, settingField_read,
    binaryField_read, boolField_read]
  congr 1
  funext setting
  cases setting <;> rfl

/-- Every field is there under its name, whichever half of the settings it is in. -/
theorem getValue_saved {c : Configuration} {regKey : RegKey} {saved : RegKey}
    (h : c.save regKey = some saved) :
    ∀ f ∈ firstFields ++ lastFields, saved.getValue f.name = some (f.write c) := by
  have hnodup := nodup_fields
  rw [List.map_append, List.nodup_append] at hnodup
  obtain ⟨hfirst, hlast, hdisjoint⟩ := hnodup
  unfold save at h
  split_ifs at h
  obtain rfl := Option.some.inj h
  intro f hf
  rw [Key.getValue_createKey]
  rcases List.mem_append.mp hf with hf | hf
  · have hnot : f.name ∉ lastFields.map Field.name :=
      fun hmem => hdisjoint f.name (List.mem_map_of_mem hf) f.name hmem rfl
    rw [getValue_saveFields_of_notMem hnot, Key.getValue_createKey,
      getValue_saveFields hfirst _ f hf]
  · exact getValue_saveFields hlast _ f hf

theorem openKey_saved {c : Configuration} {regKey : RegKey} {saved : RegKey}
    (h : c.save regKey = some saved) :
    (∃ stale, saved.openKey testKey = some (strField.save c stale)) ∧
      ∃ stale, saved.openKey serversKey = some (saveItems index saveProfile 0 c.SftpProfiles
        (Key.setValue stale count (.dword c.SftpProfiles.length.toUInt32))) := by
  have hne : testKey ≠ serversKey := by decide +kernel
  unfold save at h
  split_ifs at h
  obtain rfl := Option.some.inj h
  constructor
  · refine ⟨((saveFields firstFields c regKey).openKey testKey).getD Key.empty, ?_⟩
    rw [Key.openKey_createKey_of_ne hne, openKey_saveFields, Key.openKey_createKey]
  · exact ⟨_, Key.openKey_createKey _ serversKey _⟩

end Configuration

/-- What is saved over anything is loaded over anything, in the current version. -/
theorem load_save_configuration {c : Configuration} (h : c.Storable) (regKey : RegKey)
    (memory : Configuration) :
    ∃ saved, c.save regKey = some saved ∧
      Configuration.load (some saved) memory =
        { c with ConfigVersion := Configuration.CURRENT_CONFIG_VERSION } := by
  obtain ⟨saved, hsaved⟩ : ∃ saved, c.save regKey = some saved :=
    ⟨_, if_pos (length_folderList_lt h.folders)⟩
  refine ⟨saved, hsaved, ?_⟩
  have hvalues := Configuration.getValue_saved hsaved
  obtain ⟨⟨staleAct, hact⟩, staleServers, hservers⟩ := Configuration.openKey_saved hsaved
  have hstr :
      ∀ t : Configuration, Configuration.strField.load (Configuration.strField.save c staleAct) t =
      { t with Str := c.Str } := by
    intro t
    have hnodup : ([Configuration.strField].map Field.name).Nodup := List.nodup_singleton _
    have hread := loadFields_saveFields hnodup c t staleAct
    exact hread.trans (szField_read _ _ _ _ _)
  have hcount :
      Configuration.profileCount (saveItems Configuration.index saveProfile 0 c.SftpProfiles
      (Key.setValue staleServers Configuration.count (.dword c.SftpProfiles.length.toUInt32))) =
        c.SftpProfiles.length := by
    have hfew := h.profiles
    have hmax : SFTP_MAX_PROFILES = 100 := rfl
    have hnat : c.SftpProfiles.length.toUInt32.toNat = c.SftpProfiles.length :=
      UInt32.toNat_ofNat_of_lt' (by rw [UInt32.size]; omega)
    unfold Configuration.profileCount
    rw [getValue_saveItems, Key.getValue_setValue]
    dsimp only
    rw [hnat, min_eq_left hfew]
  unfold Configuration.load
  dsimp only
  rw [loadFields_eq fun f hf => hvalues f (List.mem_append_left _ hf),
    loadFields_eq fun f hf => hvalues f (List.mem_append_right _ hf), hact, hservers]
  dsimp only
  rw [hcount, loadItems_saveItems saveProfile loadProfile Configuration.index_injective fun p _ =>
    load_save_profile p,
    Configuration.read_firstFields h, hstr, Configuration.read_lastFields]

/-- One server in the folder "work". -/
def oneServer : Configuration where
  ConfigVersion := 4
  SftpDefaultSession := .copy 128 []
  SftpEncoding := 0
  SftpFolders := [.copy 128 (ascii "work")]
  Str := .copy 260 (ascii "default")
  dwords := fun _ => 0
  CfgWindowPlacement := ⟨List.replicate 44 0, List.length_replicate⟩
  SftpCloseTransferDlgOnFinish := true
  SftpProfiles :=
    [{ blankProfile with Host := .copy 256 (ascii "h"), Folder := .copy 128 (ascii "work") }]

/-- It is saved over a list of two servers. -/
theorem load_save_configuration_shorter : ∃ saved,
    oneServer.save (Key.empty.createKey Configuration.serversKey
      (saveItems Configuration.index saveProfile 0 [blankProfile, blankProfile])) = some saved ∧
    Configuration.load (some saved) { oneServer with SftpProfiles := [] } =
      { oneServer with ConfigVersion := Configuration.CURRENT_CONFIG_VERSION } :=
  load_save_configuration ⟨by decide, by decide, by decide +kernel⟩ _ _

end SalamanderSftp
