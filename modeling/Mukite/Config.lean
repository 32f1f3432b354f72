import Mukite.Lib.WhileLoop
import Mukite.Stdio

/-!
# The configuration file

`src/config.h`, `src/config.c`. The file is a sequence of words: the name of an option, then its
value. A name that is not known is passed over alone, so that what follows it is taken for the next
name.
-/

namespace Mukite

open WhileLoop

/-- `CONFIG_OPTION_LENGTH` without the terminator. -/
def configOptionLength : Nat := 1023

structure Config where
  filename : Bytes
  networkHost : Bytes
  networkPort : Int
  componentPassword : Bytes
  componentHostname : Bytes
  readerBlock : Int
  readerBuffer : Int
  readerQueue : Int
  writerBuffer : Int
  workerThreads : Int
  workerBuffer : Int
  workerDecisecondsLimit : Int
  workerDataFile : Bytes
  aclDataFile : Bytes
  aclDefaultRole : Int
  loggerLevel : Int
deriving DecidableEq, Repr

/-- `config_init`; a null file name leaves the zeros of `memset`. -/
def configInit (filename : Option Bytes) : Config where
  filename := filename.getD []
  networkHost := []
  networkPort := 0
  componentPassword := []
  componentHostname := []
  readerBlock := 0
  readerBuffer := 2 ^ 20
  readerQueue := 1024
  writerBuffer := 2 ^ 20
  workerThreads := 3
  workerBuffer := 2 ^ 20
  workerDecisecondsLimit := 2
  workerDataFile := []
  aclDataFile := []
  aclDefaultRole := 0
  loggerLevel := 0

/-! ## Options -/

/-- The options of the file. -/
inductive ConfigOption
  | networkHost
  | networkPort
  | componentPassword
  | componentHostname
  | readerBuffer
  | readerBlock
  | readerQueue
  | writerBuffer
  | workerDataFile
  | workerThreads
  | workerBuffer
  | workerDecisecondsLimit
  | aclDataFile
  | aclDefaultRole
  | loggerLevel
deriving DecidableEq, Repr

inductive ConfigValue
  | str (value : Bytes)
  | int (value : Int)
deriving DecidableEq, Repr

/-- The options in the order in which the name is compared with them. -/
def configOptions : List (ConfigOption × Bytes) :=
  [(.networkHost, lit "network.host"),
    (.networkPort, lit "network.port"),
    (.componentPassword, lit "component.password"),
    (.componentHostname, lit "component.hostname"),
    (.readerBuffer, lit "reader.buffer"),
    (.readerBlock, lit "reader.block"),
    (.readerQueue, lit "reader.queue"),
    (.writerBuffer, lit "writer.buffer"),
    (.workerDataFile, lit "worker.data_file"),
    (.workerThreads, lit "worker.threads"),
    (.workerBuffer, lit "worker.buffer"),
    (.workerDecisecondsLimit, lit "worker.deciseconds_limit"),
    (.aclDataFile, lit "acl.data_file"),
    (.aclDefaultRole, lit "acl.default_role"),
    (.loggerLevel, lit "logger.level")]

/-- The option with the name. -/
def configOption (name : Bytes) : Option ConfigOption :=
  (configOptions.find? (fun option => option.2 == name)).map (·.1)

namespace Config

def get (config : Config) : ConfigOption → ConfigValue
  | .networkHost => .str config.networkHost
  | .networkPort => .int config.networkPort
  | .componentPassword => .str config.componentPassword
  | .componentHostname => .str config.componentHostname
  | .readerBuffer => .int config.readerBuffer
  | .readerBlock => .int config.readerBlock
  | .readerQueue => .int config.readerQueue
  | .writerBuffer => .int config.writerBuffer
  | .workerDataFile => .str config.workerDataFile
  | .workerThreads => .int config.workerThreads
  | .workerBuffer => .int config.workerBuffer
  | .workerDecisecondsLimit => .int config.workerDecisecondsLimit
  | .aclDataFile => .str config.aclDataFile
  | .aclDefaultRole => .int config.aclDefaultRole
  | .loggerLevel => .int config.loggerLevel

/-- Nothing is changed by a value of the wrong kind. -/
def set (config : Config) : ConfigOption → ConfigValue → Config
  | .networkHost, .str value => { config with networkHost := value }
  | .networkPort, .int value => { config with networkPort := value }
  | .componentPassword, .str value => { config with componentPassword := value }
  | .componentHostname, .str value => { config with componentHostname := value }
  | .readerBuffer, .int value => { config with readerBuffer := value }
  | .readerBlock, .int value => { config with readerBlock := value }
  | .readerQueue, .int value => { config with readerQueue := value }
  | .writerBuffer, .int value => { config with writerBuffer := value }
  | .workerDataFile, .str value => { config with workerDataFile := value }
  | .workerThreads, .int value => { config with workerThreads := value }
  | .workerBuffer, .int value => { config with workerBuffer := value }
  | .workerDecisecondsLimit, .int value => { config with workerDecisecondsLimit := value }
  | .aclDataFile, .str value => { config with aclDataFile := value }
  | .aclDefaultRole, .int value => { config with aclDefaultRole := value }
  | .loggerLevel, .int value => { config with loggerLevel := value }
  | _, _ => config

end Config

/-- Whether the option is read with `READ_CONFIG_STR`. -/
def ConfigOption.isStr : ConfigOption → Bool
  | .networkHost | .componentPassword | .componentHostname | .workerDataFile | .aclDataFile => true
  | _ => false

/-! ## Reading -/

/-- `READ_CONFIG_STR`, `READ_CONFIG_INT`. An option whose value is not there keeps its value. -/
def readConfig (option : ConfigOption) (config : Config) (file : InputFile) : Config × InputFile :=
  if option.isStr then
    match scanWord configOptionLength file with
    | (some word, file) => (config.set option (.str (cString word)), file)
    | (none, file) => (config, file)
  else
    match scanInt file with
    | (some value, file) => (config.set option (.int value), file)
    | (none, file) => (config, file)

/-- `fscanf(file, "%*[^\n]\n")`. -/
def skipComment (file : InputFile) : InputFile :=
  match skipLine file with
  | (some _, file) => scanSpace file
  | (none, file) => file

/-- A turn of the loop of `config_read`. -/
def configTurn (s : Config × InputFile) : Option ((Config × InputFile) ⊕ Config) :=
  match scanWord configOptionLength s.2 with
  | (none, _) => some (.inr s.1)
  | (some name, file) =>
    if name.head? = some (ch '#') then some (.inl (s.1, skipComment file))
    else
      match configOption (cString name) with
      | some option => some (.inl (readConfig option s.1 file))
      | none => some (.inl (s.1, file))

/-- The loop of `config_read`: each turn consumes a word. -/
def configLoop (config : Config) (file : InputFile) : Option Config :=
  whileLoop configTurn (file.rest.length + 1) (config, file)

/--
The file that `config_read` reads; `fopen` gives `none` if a file cannot be opened. Without a file
name, it is the standard input from its beginning.
-/
def configFile (fopen : Bytes → Option InputFile) (stdin : InputFile) (config : Config) :
    Option InputFile :=
  if config.filename.isEmpty then some stdin else fopen config.filename

/-- `config_read`. -/
def configRead (fopen : Bytes → Option InputFile) (stdin : InputFile) (config : Config) :
    Option (Config × Bool) :=
  match configFile fopen stdin config with
  | none => some (config, false)
  | some file => (configLoop config file).map (·, true)

end Mukite
