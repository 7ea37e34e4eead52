import Codez.Json
import Codez.Lib.Text

/-!
The configuration of llm-compress (`config.rs`: the `[llm_compress]` section of
`~/.codex/config-zmod.toml`, with its defaults) and the code of other crates that the
compressors call (`Ext`).

TOML integers are at most `2^63 - 1`, so no sum of two settings overflows a `usize`;
sizes and counts are `Nat`.
-/

namespace LlmCompress

structure TruncateCfg where
  headLines : Nat := 50
  tailLines : Nat := 50
  maxBytes : Nat := 16384

structure JsonCfg where
  useToon : Bool := true

structure DiffCfg where
  contextLines : Nat := 3

structure LogCfg where
  keepLevels : List Text := ["error".toList, "warn".toList]

structure PreprocessCfg where
  stripProgress : Bool := true
  collapseBlank : Bool := true
  truncateLineBytes : Nat := 2000
  dedupConsecutive : Bool := true
  blobMinBytes : Nat := 256

structure SearchCfg where
  maxPerFile : Nat := 5
  maxFiles : Nat := 15

structure ProtectCfg where
  errorMaxBytes : Nat := 8192

structure CcrCfg where
  enabled : Bool := true
  maxFilesPerThread : Nat := 200
  maxThreadBytes : Nat := 67108864
  maxFileBytes : Nat := 4194304

structure Config where
  enabled : Bool := false
  perItemMinBytes : Nat := 1024
  truncate : TruncateCfg := {}
  json : JsonCfg := {}
  diff : DiffCfg := {}
  log : LogCfg := {}
  preprocess : PreprocessCfg := {}
  search : SearchCfg := {}
  protect : ProtectCfg := {}
  ccr : CcrCfg := {}

/-- Functions the compressors call and do not define: `serde_json`, `toon_format`
(`encode_default` and `decode_default`; `none` is an error, or a panic, which the router
catches), `sha2`, and the Unicode tables behind `str::to_lowercase` and
`char::is_alphanumeric`. -/
structure Ext where
  serde : Serde
  encodeDefault : Value → Option Text
  decodeDefault : Text → Option Value
  sha256 : List UInt8 → Vector UInt8 32
  toLowercase : Text → Text
  isAlphanumeric : Char → Bool

def Ext.parse (ext : Ext) (t : Text) : Option Value := (ext.serde.fromStr (String.ofList t)).toOption

/-- The functions given by tables (texts with their digests, JSON texts with their values,
values with their TOON encodings) and by ASCII character classes; anything outside the
tables is an error.  For evaluating the model on particular texts. -/
def Ext.ofTables (digests : List (Text × Vector UInt8 32)) (jsons : List (Text × Value))
    (toons : List (Value × Text)) : Ext where
  serde :=
    { fromStr := fun t =>
        match jsons.find? fun e => e.1 == t.toList with
        | some e => .ok e.2
        | none => .error "expected value"
      display := fun _ => "" }
  encodeDefault v := (toons.find? fun e => e.1 == v).map Prod.snd
  decodeDefault t := (toons.find? fun e => e.2 == t).map Prod.fst
  sha256 bs := ((digests.find? fun e => Text.bytes e.1 == bs).map Prod.snd).getD (Vector.replicate 32 0)
  toLowercase t := t.map Char.toLower
  isAlphanumeric := Char.isAlphanum

end LlmCompress
