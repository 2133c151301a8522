import RadvXclipse.Util.Blob
import RadvXclipse.Winsys.BoTeardown
import RadvXclipse.Descriptor.ParallelArrays
import RadvXclipse.Winsys.SubmitSemaphores
import RadvXclipse.CmdBuffer.DecodeRun
import RadvXclipse.Nir.IdivConstRemainder
import RadvXclipse.Nir.MulHigh
import RadvXclipse.Nir.UpperBound
import RadvXclipse.Descriptor.PoolRun
import RadvXclipse.Texcompress.Bc7Cpu
import RadvXclipse.Texcompress.Bc6hCpu
import RadvXclipse.Texcompress.Bc3Encode
import RadvXclipse.Winsys.PaceRun
import RadvXclipse.Sdma.LinearRange
import RadvXclipse.Pm4.Registers
import RadvXclipse.Queue.Merging
import RadvXclipse.Queue.Preambles
import RadvXclipse.Queue.SparseBind
import RadvXclipse.Descriptor.PoolRollback
import RadvXclipse.Shader.ArenaMask
import RadvXclipse.Util.FastIdivUse
import RadvXclipse.Util.FastUrem
import RadvXclipse.Nir.DominanceTree
import RadvXclipse.Winsys.CsRoom
import RadvXclipse.Winsys.CsBuffers
