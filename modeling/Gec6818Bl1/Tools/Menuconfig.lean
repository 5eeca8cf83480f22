import Mathlib.Data.List.Lex
import Mathlib.Data.Char
import Gec6818Bl1.Lib.PyText
import Mathlib.Data.List.Dedup

/-!
# The build configuration

The options of `menuconfig.py` and the file they are kept in: `OPTIONS`, `allowed`, `normalize`,
`validate`, `load` and `save`, and the check that `config.mak` makes of three of them.

The regular expressions are written out. In `load` each part of the expression ends where the next
one has to begin, so there is nothing to backtrack over. In `find_toolchains` the directories of
`PATH` are given by the names of their executable files.
-/

namespace Gec6818Bl1.Tools.Menuconfig

open PyText

abbrev Text := List Char

instance lawfulBEq_text : LawfulBEq Text := inferInstance

inductive Arch where
  | aarch32
  | aarch64
  deriving DecidableEq, Repr

def Arch.text : Arch → Text
  | aarch32 => "aarch32".toList
  | aarch64 => "aarch64".toList

/-! ## The options -/

inductive Name where
  | opmode
  | skipAtf
  | ubootArch
  | bootPort
  | crossTool (arch : Arch)
  | initpmic
  | syslog
  | bootLogo
  | bootLogoText
  | bootLogoDelayMs
  | lcdBacklight
  deriving DecidableEq, Repr

inductive Kind where
  | choice
  | string
  | int
  deriving DecidableEq, Repr

namespace Name

/-- The names of `OPTIONS`, in its order. -/
def all : List Name :=
  [opmode, skipAtf, ubootArch, bootPort, crossTool .aarch32, crossTool .aarch64, initpmic, syslog,
    bootLogo, bootLogoText, bootLogoDelayMs, lcdBacklight]

def text : Name → Text
  | opmode => "OPMODE".toList
  | skipAtf => "SKIP_ATF".toList
  | ubootArch => "UBOOT_ARCH".toList
  | bootPort => "BOOT_PORT".toList
  | crossTool .aarch32 => "CROSS_TOOL_aarch32".toList
  | crossTool .aarch64 => "CROSS_TOOL_aarch64".toList
  | initpmic => "INITPMIC".toList
  | syslog => "SYSLOG".toList
  | bootLogo => "BOOT_LOGO".toList
  | bootLogoText => "BOOT_LOGO_TEXT".toList
  | bootLogoDelayMs => "BOOT_LOGO_DELAY_MS".toList
  | lcdBacklight => "LCD_BACKLIGHT".toList

def kind : Name → Kind
  | crossTool _ | bootLogoText => .string
  | bootLogoDelayMs => .int
  | _ => .choice

/-- The choices, and `[]` in place of `None`. -/
def choices : Name → List Text
  | opmode | ubootArch => ["aarch64".toList, "aarch32".toList]
  | skipAtf | syslog | bootLogo => ["y".toList, "n".toList]
  | bootPort => ["sd".toList, "emmc".toList]
  | initpmic => ["YES".toList, "NO".toList]
  | lcdBacklight => ["none".toList, "high".toList, "low".toList]
  | crossTool _ | bootLogoText | bootLogoDelayMs => []

def default : Name → Text
  | opmode | ubootArch => "aarch64".toList
  | skipAtf | syslog | bootLogo => "y".toList
  | bootPort => "sd".toList
  | crossTool .aarch32 => "arm-eabi-".toList
  | crossTool .aarch64 => "aarch64-none-elf-".toList
  | initpmic => "YES".toList
  | bootLogoText => "S5P6818 BL1 Loading...".toList
  | bootLogoDelayMs => "500".toList
  | lcdBacklight => "none".toList

/-- `name.startswith("CROSS_TOOL")`. -/
def isCrossTool : Name → Bool
  | crossTool _ => true
  | _ => false

/-- `if m.group(1) in cfg`. -/
def ofText (t : Text) : Option Name := all.find? fun name => name.text = t

end Name

/-- The dictionary: a value for every name of `OPTIONS`. -/
abbrev Cfg := Name → Text

/-- Values an option may take given the rest of the config. -/
def allowed (cfg : Cfg) (name : Name) : List Text :=
  if name = .ubootArch ∧
      ¬ (cfg .opmode = "aarch32".toList ∧ cfg .skipAtf = "y".toList) then ["aarch64".toList]
  else name.choices

def buildsStage2 (cfg : Cfg) : Bool :=
  cfg .skipAtf = "y".toList ∧ cfg .opmode = "aarch32".toList ∧ cfg .ubootArch = "aarch64".toList

def visible (cfg : Cfg) : Name → Bool
  | .ubootArch => cfg .skipAtf = "y".toList
  | .crossTool .aarch32 => cfg .opmode = "aarch32".toList
  | .crossTool .aarch64 => cfg .opmode = "aarch64".toList || buildsStage2 cfg
  | .bootLogoText | .bootLogoDelayMs | .lcdBacklight => cfg .bootLogo = "y".toList
  | _ => true

/-- One round of the loop of `normalize`. -/
def normalizeName (cfg : Cfg) (name : Name) : Cfg :=
  if name.kind = .choice ∧ cfg name ∉ allowed cfg name then
    Function.update cfg name ((allowed cfg name).headD [])
  else cfg

def normalize (cfg : Cfg) : Cfg := Name.all.foldl normalizeName cfg

/-- The error message for a value make can't use, or `none`. -/
def validate (u : CharClasses) (cfg : Cfg) (name : Name) : Option Text :=
  let value := cfg name
  if name.kind = .int ∧ ¬ (value ≠ [] ∧ value.all u.isDigit) then
    some "must be a non-negative integer".toList
  else if name = .bootLogoText ∧ value.any (· ∈ "\"'\\$#`".toList) then
    some "can't contain quotes, \\, $, # or `".toList
  else if name.isCrossTool ∧
      ¬ (value ≠ [] ∧ value.all fun c => u.isWord c || c ∈ "./+-".toList) then
    some "must be a toolchain prefix like aarch64-none-elf-".toList
  else none

/-! ## The toolchains on `PATH` -/

/-- `re.fullmatch(r"(%s[\w.+-]*-)gcc" % start, n)`: group 1. -/
def toolchainPrefix (u : CharClasses) (start n : Text) : Option Text :=
  let p := n.take (n.length - 3)
  let rest := p.drop start.length
  if n.drop (n.length - 3) = "gcc".toList ∧ start <+: p ∧ rest.getLast? = some '-' ∧
      rest.dropLast.all fun c => u.isWord c || c ∈ ".+-".toList then some p
  else none

/-- Prefixes of `<arch>*-gcc` compilers among the executables, sorted as `sorted` does. -/
def findToolchains (u : CharClasses) (executables : List Text) (arch : Arch) : List Text :=
  let start := if arch = .aarch64 then "aarch64".toList else "arm".toList
  ((executables.filterMap (toolchainPrefix u start)).dedup).mergeSort fun a b => a ≤ b

/-! ## The file -/

def chainSummary (cfg : Cfg) : Text :=
  if cfg .opmode = "aarch64".toList then
    "BL1 (AArch64, EL3 + PSCI) -> u-boot-direct.img (AArch64 EL2)".toList
  else if cfg .skipAtf = "n".toList then
    "BL1 (AArch32) -> fip-loader -> fip-secure (BL31/OP-TEE) -> fip-nonsecure".toList
  else if cfg .ubootArch = "aarch32".toList then
    "BL1 (AArch32 SVC) -> u-boot-direct.img (AArch32 SVC), no PSCI".toList
  else "BL1 (AArch32) -> stage2 (AArch64 EL3 + PSCI) -> u-boot-direct.img (AArch64 EL2)".toList

/-- `[:?]?`. -/
def skipMark : Text → Text
  | ':' :: cs => cs
  | '?' :: cs => cs
  | cs => cs

/-- `re.match(r"\s*(\w+)\s*[:?]?=\s*(.*?)\s*$", line)`: groups 1 and 2. -/
def parseLine (u : CharClasses) (line : Text) : Option (Text × Text) :=
  let line := line.dropWhile isSpace
  let name := line.takeWhile u.isWord
  match skipMark ((line.dropWhile u.isWord).dropWhile isSpace) with
  | '=' :: value => if name = [] then none else some (name, strip value)
  | _ => none

def loadLine (u : CharClasses) (cfg : Cfg) (line : Text) : Cfg :=
  match parseLine u line with
  | some (key, value) =>
    match Name.ofText key with
    | some name => Function.update cfg name value
    | none => cfg
  | none => cfg

/-- `load`; `none` is a file that is not there. -/
def load (u : CharClasses) (content : Option Text) : Cfg :=
  match content with
  | some content => normalize ((lines (universalNewlines content)).foldl (loadLine u) Name.default)
  | none => normalize Name.default

/-- `max(len(name) for name in cfg)`. -/
def width : ℕ := (Name.all.map fun name => name.text.length).foldr max 0

/-- `"%-*s = %s" % (width, name, cfg[name])`. -/
def optionLine (cfg : Cfg) (name : Name) : Text :=
  name.text.rightpad width ' ' ++ " = ".toList ++ cfg name

def saveLines (cfg : Cfg) : List Text :=
  ["# BL1 build configuration, written by tools/menuconfig.py".toList,
    "# (`make menuconfig`). Included by config.mak; variables on the".toList,
    "# make command line still override these.".toList,
    "# Boot chain: ".toList ++ chainSummary cfg] ++ Name.all.map (optionLine cfg)

/-- What `save` writes. -/
def saveText (cfg : Cfg) : Text := (saveLines cfg).flatMap fun line => line ++ ['\n']

/-- What `config.mak` asks of `OPMODE`, `SKIP_ATF` and `UBOOT_ARCH`: no `$(error ..)`. -/
def makeAccepts (opmode skipAtf ubootArch : Text) : Bool :=
  if ubootArch = "aarch32".toList then opmode ++ "-".toList ++ skipAtf = "aarch32-y".toList
  else ubootArch = "aarch64".toList

end Gec6818Bl1.Tools.Menuconfig
